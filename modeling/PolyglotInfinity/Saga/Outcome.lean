import PolyglotInfinity.Saga.System

/-!
# Status and money

A saga writes COMPLETED on any 2xx and CANCELED on anything else, while the
ledger and the gateway answer 200 whatever happened and a call that has ended
for the coordinator may still reach the ledger. So neither status says what the
ledger did. Each theorem names the steps that have to be excluded for it to.
-/

namespace PolyglotInfinity.Saga

open Orders (NewOrder SagaPhase SagaMove)
open Transition (run Along)

variable {p : Platform} {s s' : System} {e : Event}

/-! ### Phases of a remote call -/

def awaits : SagaPhase → Option NewOrder
  | .running o => some o
  | _ => none

def outcome : SagaPhase → Option (NewOrder × Bool)
  | .resolved o success | .written o success | .published o success | .failed o success => some (o, success)
  | _ => none

theorem wrote_outcome {q : SagaPhase} {w : NewOrder × Bool} (wrote : q.wrote = some w) : outcome q = some w := by
  cases q with
  | written => exact wrote
  | published => exact wrote
  | _ => cases wrote

section
variable {i : ℕ} {event : Orders.Event} {q q' : SagaPhase}

theorem move_known (move : SagaMove i event q q') (known : q ≠ .absent) : q' ≠ .absent := by
  cases move with
  | stay => exact known
  | _ => nofun

theorem move_awaits {o : NewOrder} (move : SagaMove i event q q') (known : q ≠ .absent)
    (waiting : awaits q' = some o) : awaits q = some o := by
  cases move with
  | stay => exact waiting
  | start => exact absurd rfl known
  | _ => cases waiting

theorem move_outcome (move : SagaMove i event q q') (other : ∀ j success, event ≠ .resolve j success) :
    outcome q' = outcome q := by
  cases move with
  | resolve => exact absurd rfl (other _ _)
  | _ => rfl

end

theorem resolve_outcome {orders orders' : Orders.State} {i j : ℕ} {success b : Bool} {o : NewOrder}
    (taken : Orders.step orders (.resolve i success) = some orders')
    (ended : outcome (orders'.sagas j) = some (o, b)) :
    outcome (orders.sagas j) = some (o, b) ∨ (j = i ∧ b = success ∧ awaits (orders.sagas i) = some o) := by
  obtain ⟨o', phase, rfl⟩ := Orders.resolve_eq taken
  by_cases mine : j = i
  · subst j
    obtain ⟨rfl, rfl⟩ : o' = o ∧ success = b := by simpa [Orders.State.setSaga, outcome] using ended
    exact .inr ⟨rfl, rfl, by rw [phase]; rfl⟩
  · exact .inl (by simpa [Orders.State.setSaga, mine] using ended)

/-! ### What a step does -/

theorem orders_eq {event : Orders.Event} (h : step p s (.orders event) = some s') :
    (∀ i success, event ≠ .resolve i success) ∧
      ∃ orders, Orders.step s.orders event = some orders ∧ s' = { s with orders } := by
  cases event with
  | resolve i success => cases h
  | _ =>
    obtain ⟨orders, taken, rfl⟩ := Option.map_eq_some_iff.mp h
    exact ⟨by simp, orders, taken, rfl⟩

theorem send_eq {i : ℕ} (h : step p s (.send i) = some s') :
    ∃ o query, s.orders.sagas i = .running o ∧ p.request o = some query ∧
      s' = { s with requests := ⟨i, query⟩ :: s.requests } := by
  simp only [step] at h
  split at h
  · rename_i o phase
    obtain ⟨query, built, rfl⟩ := Option.map_eq_some_iff.mp h
    exact ⟨o, query, phase, built, rfl⟩
  · cases h

theorem receive_eq {i status : ℕ} (h : step p s (.receive i status) = some s') :
    (i, status) ∈ s.replies ∧ ∃ orders, Orders.step s.orders (.resolve i (success status)) = some orders ∧
      s' = { s with orders, replies := s.replies.erase (i, status) } := by
  simp only [step] at h
  split at h
  · rename_i member
    obtain ⟨orders, taken, rfl⟩ := Option.map_eq_some_iff.mp h
    exact ⟨member, orders, taken, rfl⟩
  · cases h

theorem entries_committed {c : Call} {args : Ledger.TransferArgs} (now : ℤ)
    (read : Ledger.transferArgs c.query = some args)
    (admits : Ledger.Admits s.ledger.ledger args.fromId args.toId args.amount) :
    s.entries c now = [⟨args.fromId, args.toId, args.amount, now⟩] := by
  rw [System.entries, Ledger.handleTransfer_commits now read admits, List.drop_left]

theorem entries_refused {c : Call} (now : ℤ)
    (refused : ∀ args, Ledger.transferArgs c.query = some args →
      ¬ Ledger.Admits s.ledger.ledger args.fromId args.toId args.amount) : s.entries c now = [] := by
  rw [System.entries, Ledger.handleTransfer_refused now refused, List.drop_length]

/-! ### COMPLETED and the transfer -/

/-- For saga `i` the ledger has committed a transfer with the data of `o`. -/
def Paid (s : System) (i : ℕ) (o : NewOrder) : Prop :=
  ∃ c ∈ s.commits, c.1 = i ∧ c.2.fromId = o.fromAccount ∧ c.2.toId = o.toAccount ∧ c.2.amount = o.amount

instance (s : System) (i : ℕ) (o : NewOrder) : Decidable (Paid s i o) :=
  inferInstanceAs (Decidable (∃ c ∈ s.commits, _))

/-- Every saga that has written COMPLETED has been paid. -/
def CompletedPaid (s : System) : Prop :=
  ∀ i o, (s.orders.sagas i).wrote = some (o, true) → Paid s i o

/-- The ledger reads the order's data from the request and its guard holds. -/
def Transfers (s : System) (c : Call) (o : NewOrder) : Prop :=
  Ledger.transferArgs c.query = some ⟨o.fromAccount, o.toAccount, o.amount⟩ ∧
    Ledger.Admits s.ledger.ledger o.fromAccount o.toAccount o.amount

instance (s : System) (c : Call) (o : NewOrder) : Decidable (Transfers s c o) :=
  inferInstanceAs (Decidable (_ ∧ _))

/-- No 2xx without the transfer: for a waiting saga that has not been paid, the
breaker admits the request, the transport does not fail, and the ledger finds
the order's data in the request and its guard true of them. -/
def Backed (s : System) : Event → Prop
  | .serve c now => (s.breaker.allow now).2 = true ∨ ∀ o ∈ awaits (s.orders.sagas c.saga), Paid s c.saga o
  | .transportError c _ => ∀ o ∈ awaits (s.orders.sagas c.saga), Paid s c.saga o
  | .execute c _ => ∀ o ∈ awaits (s.orders.sagas c.saga), Paid s c.saga o ∨ Transfers s c o
  | _ => True

def Known (s : System) (i : ℕ) : Prop := s.orders.sagas i ≠ .absent

/-- Saga `i` has started, and if it still waits for its reply it has been paid. -/
def Settled (s : System) (i : ℕ) : Prop :=
  Known s i ∧ ∀ o, awaits (s.orders.sagas i) = some o → Paid s i o

/-- Of every pair, when it holds of a new one and of those before. -/
theorem pairs_cons {α : Type*} {P : α → ℕ → Prop} {pairs : List (α × ℕ)} {a : α} {n : ℕ} (now : P a n)
    (before : ∀ b m, (b, m) ∈ pairs → P b m) : ∀ b m, (b, m) ∈ (a, n) :: pairs → P b m := by
  intro b m member
  rcases List.mem_cons.mp member with same | old
  · obtain ⟨rfl, rfl⟩ := Prod.mk.inj same
    exact now
  · exact before b m old

/-- Every reply under way to a waiting saga stands for a committed transfer. -/
structure Backing (s : System) : Prop where
  sound : Orders.Sound s.orders
  requests : ∀ c ∈ s.requests, Known s c.saga
  proxied : ∀ c ∈ s.proxied, Known s c.saga
  upstream : ∀ c ∈ s.upstream, Known s c.saga
  answers : ∀ c status, (c, status) ∈ s.answers → Settled s c.saga
  replies : ∀ i status, (i, status) ∈ s.replies → Settled s i
  paid : ∀ i o, outcome (s.orders.sagas i) = some (o, true) → Paid s i o

theorem Backing.orders {event : Orders.Event} {orders : Orders.State} (inv : Backing s)
    (taken : Orders.step s.orders event = some orders)
    (paid : ∀ i o, outcome (orders.sagas i) = some (o, true) → Paid s i o) : Backing { s with orders } := by
  have move := Orders.step_saga inv.sound.threads taken
  have known : ∀ i, Known s i → Known { s with orders } i := fun i => move_known (move i)
  have settled : ∀ i, Settled s i → Settled { s with orders } i := fun i ⟨started, paid⟩ =>
    ⟨known i started, fun o waiting => paid o (move_awaits (move i) started waiting)⟩
  exact {
    sound := Orders.step_sound inv.sound taken
    requests := fun c member => known _ (inv.requests c member)
    proxied := fun c member => known _ (inv.proxied c member)
    upstream := fun c member => known _ (inv.upstream c member)
    answers := fun c status member => settled _ (inv.answers c status member)
    replies := fun i status member => settled _ (inv.replies i status member)
    paid }

theorem Paid.execute {c : Call} {now : ℤ} {i : ℕ} {o : NewOrder} (paid : Paid s i o) :
    Paid (s.execute c now) i o := by
  obtain ⟨x, known, rest⟩ := paid
  exact ⟨x, by simp [known], rest⟩

theorem Backing.execute {c : Call} {now : ℤ} (inv : Backing s) (member : c ∈ s.upstream)
    (ok : Backed s (.execute c now)) : Backing (s.execute c now) := by
  have settled : ∀ i, Settled s i → Settled (s.execute c now) i := by
    rintro i ⟨known, paid⟩
    rw [Settled, Known, execute_orders]
    exact ⟨known, fun o waiting => (paid o waiting).execute⟩
  constructor
  · rw [execute_orders]; exact inv.sound
  · simpa only [Known, execute_orders, execute_requests] using inv.requests
  · simpa only [Known, execute_orders, execute_proxied] using inv.proxied
  · intro d left
    rw [execute_upstream] at left
    rw [Known, execute_orders]
    exact inv.upstream d (List.mem_of_mem_erase left)
  · intro d status sent
    rw [execute_answers, List.mem_cons, Prod.mk.injEq] at sent
    obtain ⟨rfl, -⟩ | old := sent
    · rw [Settled, Known, execute_orders]
      -- The reply that is new: its order has been paid, before or by this very transfer.
      refine ⟨inv.upstream d member, fun o waiting => ?_⟩
      obtain paid | ⟨read, admits⟩ := ok o waiting
      · exact paid.execute
      · refine ⟨(d.saga, ⟨o.fromAccount, o.toAccount, o.amount, now⟩), ?_, rfl, rfl, rfl, rfl⟩
        simp [entries_committed now read admits]
    · exact settled _ (inv.answers d status old)
  · intro i status sent
    rw [execute_replies] at sent
    exact settled i (inv.replies i status sent)
  · intro i o ended
    rw [execute_orders] at ended
    exact (inv.paid i o ended).execute

theorem step_backing (inv : Backing s) (ok : Backed s e) (h : step p s e = some s') : Backing s' := by
  cases e with
  | orders event =>
    obtain ⟨other, orders, taken, rfl⟩ := orders_eq h
    refine inv.orders taken fun i o ended => inv.paid i o ?_
    rwa [← move_outcome (Orders.step_saga inv.sound.threads taken i) other]
  | send i =>
    obtain ⟨o, query, phase, -, rfl⟩ := send_eq h
    refine { inv with requests := fun c sent => ?_ }
    obtain rfl | old := List.mem_cons.mp sent
    · show s.orders.sagas i ≠ .absent
      simp [phase]
    · exact inv.requests c old
  | serve c now =>
    obtain ⟨member, rfl⟩ := Option.ite_some_none_eq_some.mp h
    have known := inv.requests c member
    by_cases allowed : (s.breaker.allow now).2 = true
    · rw [serve_allowed allowed]
      exact { inv with
        requests := fun d left => inv.requests d (List.mem_of_mem_erase left)
        proxied := List.forall_mem_cons.mpr ⟨known, inv.proxied⟩
        upstream := List.forall_mem_cons.mpr ⟨known, inv.upstream⟩ }
    · -- The fallback's 200 goes to the saga although no transfer was tried.
      rw [serve_refused allowed]
      have settled : Settled s c.saga := ⟨known, ok.resolve_left allowed⟩
      exact { inv with
        requests := fun d left => inv.requests d (List.mem_of_mem_erase left)
        replies := pairs_cons settled inv.replies }
  | resend c =>
    obtain ⟨member, rfl⟩ := Option.ite_some_none_eq_some.mp h
    exact { inv with upstream := List.forall_mem_cons.mpr ⟨inv.proxied c member, inv.upstream⟩ }
  | execute c now =>
    obtain ⟨member, rfl⟩ := Option.ite_some_none_eq_some.mp h
    exact inv.execute member ok
  | forward c status now =>
    obtain ⟨⟨answered, -⟩, rfl⟩ := Option.ite_some_none_eq_some.mp h
    exact { inv with
      proxied := fun d left => inv.proxied d (List.mem_of_mem_erase left)
      answers := fun d code left => inv.answers d code (List.mem_of_mem_erase left)
      replies := pairs_cons (inv.answers c status answered) inv.replies }
  | transportError c now =>
    obtain ⟨member, rfl⟩ := Option.ite_some_none_eq_some.mp h
    have settled : Settled s c.saga := ⟨inv.proxied c member, ok⟩
    exact { inv with
      proxied := fun d left => inv.proxied d (List.mem_of_mem_erase left)
      replies := pairs_cons settled inv.replies }
  | receive i status =>
    obtain ⟨member, orders, taken, rfl⟩ := receive_eq h
    have waited := inv.replies i status member
    have after := inv.orders taken fun j o ended => by
      obtain before | ⟨rfl, -, waiting⟩ := resolve_outcome taken ended
      · exact inv.paid j o before
      · exact waited.2 o waiting
    exact { after with replies := fun j code left => after.replies j code (List.mem_of_mem_erase left) }
  | giveUp i =>
    obtain ⟨orders, taken, rfl⟩ := Option.map_eq_some_iff.mp h
    refine inv.orders taken fun j o ended => ?_
    obtain before | ⟨-, wrong, -⟩ := resolve_outcome taken ended
    · exact inv.paid j o before
    · cases wrong
  | ledger r =>
    obtain ⟨ledger, -, rfl⟩ := Option.map_eq_some_iff.mp h
    exact { inv with }
  | breaker call =>
    obtain rfl := Option.some.inj h
    exact { inv with }

theorem init_backing (table : String → Option Orders.Row) : Backing (System.initial table) where
  sound := Orders.init_sound table
  requests := by simp [System.initial]
  proxied := by simp [System.initial]
  upstream := by simp [System.initial]
  answers := by simp [System.initial]
  replies := by simp [System.initial]
  paid := by simp [System.initial, Orders.State.initial, outcome]

/-- A run whose 2xx replies are all backed by a transfer completes no order
without its money having moved. -/
theorem completed_orders_are_paid {table : String → Option Orders.Row} {events : List Event}
    (h : run (step p) (System.initial table) events = some s)
    (backed : Along (step p) Backed (System.initial table) events) : CompletedPaid s := by
  have inv := Transition.run_along (fun _ _ _ => step_backing) (init_backing table) backed h
  exact fun i o wrote => inv.paid i o (wrote_outcome wrote)

instance (s : System) : (e : Event) → Decidable (Backed s e)
  | .serve c now => inferInstanceAs (Decidable ((s.breaker.allow now).2 = true ∨
      ∀ o ∈ awaits (s.orders.sagas c.saga), Paid s c.saga o))
  | .transportError c _ => inferInstanceAs (Decidable (∀ o ∈ awaits (s.orders.sagas c.saga), Paid s c.saga o))
  | .execute c _ =>
    inferInstanceAs (Decidable (∀ o ∈ awaits (s.orders.sagas c.saga), Paid s c.saga o ∨ Transfers s c o))
  | .orders _ | .send _ | .resend _ | .forward _ _ _ | .receive _ _ | .giveUp _ | .ledger _ | .breaker _ =>
    .isTrue trivial

def plain : Platform where
  gatewayUrl := "http://server-go:8080"
  doubleText
    | .fin q => toString q.num ++ ".0"
    | _ => "NaN"
  header _ := true
  query url := some (String.ofList ((url.toList.dropWhile (· ≠ '?')).drop 1))

def posted (amount : String) : List Event :=
  [.post 0 ⟨"id=o1&amount=" ++ amount, "c0"⟩ 1, .respond 0 true, .announce 0, .executeSaga 0].map .orders

def request (amount : String) : Call := ⟨0, "from=ACC-001&to=ACC-002&amount=" ++ amount ++ ".0"⟩

def called (amount : String) : List Event :=
  posted amount ++ [.send 0, .serve (request amount) 2, .execute (request amount) 3,
    .forward (request amount) 200 4, .receive 0 200, .orders (.write 0 5)]

/-- A run of which the write of the first saga and another fact are computed. -/
theorem exists_written {events : List Event} {β : Type} {f : System → β} {completed : Bool} {x : β}
    (history : (run (step plain) (System.initial fun _ => none) events).map
      (fun s => ((s.orders.sagas 0).wrote.map Prod.snd, f s)) = some (some completed, x)) :
    ∃ s o, run (step plain) (System.initial fun _ => none) events = some s ∧
      (s.orders.sagas 0).wrote = some (o, completed) ∧ f s = x := by
  obtain ⟨s, h, facts⟩ := Option.map_eq_some_iff.mp history
  obtain ⟨wrote, fact⟩ := Prod.mk.inj facts
  obtain ⟨⟨o, _⟩, written, rfl⟩ := Option.map_eq_some_iff.mp wrote
  exact ⟨s, o, h, written, fact⟩

theorem completed_orders_are_paid_called : ∃ s,
    run (step plain) (System.initial fun _ => none) (called "20") = some s ∧
    (s.orders.sagas 0).wrote.map Prod.snd = some true ∧ CompletedPaid s := by
  have history : (run (step plain) (System.initial fun _ => none) (called "20")).map
      (fun s => (s.orders.sagas 0).wrote.map Prod.snd) = some (some true) := by decide +kernel
  obtain ⟨s, h, wrote⟩ := Option.map_eq_some_iff.mp history
  exact ⟨s, h, wrote, completed_orders_are_paid h (by decide +kernel)⟩

/-- The ledger refuses an amount beyond the balance with a 200. -/
theorem refused_transfer_completes : ¬ ∀ s,
    run (step plain) (System.initial fun _ => none) (called "20000") = some s → CompletedPaid s := by
  intro law
  have history : (run (step plain) (System.initial fun _ => none) (called "20000")).map
      (fun s => ((s.orders.sagas 0).wrote.map Prod.snd, s.commits.length)) = some (some true, 0) := by
    decide +kernel
  obtain ⟨s, o, h, wrote, commits⟩ := exists_written history
  obtain ⟨c, member, -⟩ := law s h 0 o wrote
  simp [List.eq_nil_of_length_eq_zero commits] at member

/-! ### CANCELED and the transfer -/

/-- No saga that has written CANCELED has a committed transfer. -/
def CanceledUnpaid (s : System) : Prop :=
  ∀ i o, (s.orders.sagas i).wrote = some (o, false) → ∀ c ∈ s.commits, c.1 ≠ i

/-- The coordinator gives up only what the ledger has not committed, and what
reaches the ledger later is refused there. -/
def Forgone (s : System) : Event → Prop
  | .giveUp i => ∀ c ∈ s.commits, c.1 ≠ i
  | .execute c _ => ∀ ended ∈ outcome (s.orders.sagas c.saga), ended.2 = false →
      ∀ args ∈ Ledger.transferArgs c.query, ¬ Ledger.Admits s.ledger.ledger args.fromId args.toId args.amount
  | _ => True

/-- Every reply is a 200, and a saga whose call has failed has no commit. -/
structure Unspent (s : System) : Prop where
  sound : Orders.Sound s.orders
  answers : ∀ c status, (c, status) ∈ s.answers → status = 200
  replies : ∀ i status, (i, status) ∈ s.replies → status = 200
  unpaid : ∀ i o, outcome (s.orders.sagas i) = some (o, false) → ∀ c ∈ s.commits, c.1 ≠ i

theorem Unspent.orders {event : Orders.Event} {orders : Orders.State} (inv : Unspent s)
    (taken : Orders.step s.orders event = some orders)
    (unpaid : ∀ i o, outcome (orders.sagas i) = some (o, false) → ∀ c ∈ s.commits, c.1 ≠ i) :
    Unspent { s with orders } :=
  { inv with sound := Orders.step_sound inv.sound taken, unpaid }

theorem Unspent.execute {c : Call} {now : ℤ} (inv : Unspent s) (ok : Forgone s (.execute c now)) :
    Unspent (s.execute c now) := by
  constructor
  · rw [execute_orders]; exact inv.sound
  · rw [execute_answers]
    exact pairs_cons rfl inv.answers
  · intro i status sent
    rw [execute_replies] at sent
    exact inv.replies i status sent
  · intro i o ended d member
    rw [execute_orders] at ended
    rw [execute_commits, List.mem_append] at member
    obtain old | new := member
    · exact inv.unpaid i o ended d old
    · -- An entry of this request for a saga that has failed: the guard refused it.
      rintro rfl
      obtain ⟨entry, added, rfl⟩ := List.mem_map.mp new
      simp [entries_refused now (ok _ ended rfl)] at added

theorem step_unspent (inv : Unspent s) (ok : Forgone s e) (h : step p s e = some s') : Unspent s' := by
  cases e with
  | orders event =>
    obtain ⟨other, orders, taken, rfl⟩ := orders_eq h
    refine inv.orders taken fun i o ended => inv.unpaid i o ?_
    rwa [← move_outcome (Orders.step_saga inv.sound.threads taken i) other]
  | send i => obtain ⟨o, query, -, -, rfl⟩ := send_eq h; exact { inv with }
  | serve c now =>
    obtain ⟨-, rfl⟩ := Option.ite_some_none_eq_some.mp h
    by_cases allowed : (s.breaker.allow now).2 = true
    · rw [serve_allowed allowed]; exact { inv with }
    · rw [serve_refused allowed]
      exact { inv with replies := pairs_cons rfl inv.replies }
  | resend c =>
    obtain ⟨-, rfl⟩ := Option.ite_some_none_eq_some.mp h
    exact { inv with }
  | execute c now =>
    obtain ⟨-, rfl⟩ := Option.ite_some_none_eq_some.mp h
    exact inv.execute ok
  | forward c status now =>
    obtain ⟨⟨answered, -⟩, rfl⟩ := Option.ite_some_none_eq_some.mp h
    exact { inv with
      answers := fun d code left => inv.answers d code (List.mem_of_mem_erase left)
      replies := pairs_cons (inv.answers c status answered) inv.replies }
  | transportError c now =>
    obtain ⟨-, rfl⟩ := Option.ite_some_none_eq_some.mp h
    exact { inv with replies := pairs_cons rfl inv.replies }
  | receive i status =>
    obtain ⟨member, orders, taken, rfl⟩ := receive_eq h
    obtain rfl := inv.replies i status member
    have after := inv.orders taken fun j o ended => by
      obtain before | ⟨-, wrong, -⟩ := resolve_outcome taken ended
      · exact inv.unpaid j o before
      · cases wrong
    exact { after with replies := fun j code left => after.replies j code (List.mem_of_mem_erase left) }
  | giveUp i =>
    obtain ⟨orders, taken, rfl⟩ := Option.map_eq_some_iff.mp h
    refine inv.orders taken fun j o ended => ?_
    obtain before | ⟨rfl, -, -⟩ := resolve_outcome taken ended
    · exact inv.unpaid j o before
    · exact ok
  | ledger r =>
    obtain ⟨ledger, -, rfl⟩ := Option.map_eq_some_iff.mp h
    exact { inv with }
  | breaker call =>
    obtain rfl := Option.some.inj h
    exact { inv with }

theorem init_unspent (table : String → Option Orders.Row) : Unspent (System.initial table) where
  sound := Orders.init_sound table
  answers := by simp [System.initial]
  replies := by simp [System.initial]
  unpaid := by simp [System.initial]

/-- A run that gives up no call behind its commit and commits none behind its
end cancels no order whose money has moved or will move. -/
theorem canceled_orders_are_unpaid {table : String → Option Orders.Row} {events : List Event}
    (h : run (step p) (System.initial table) events = some s)
    (forgone : Along (step p) Forgone (System.initial table) events) : CanceledUnpaid s := by
  have inv := Transition.run_along (fun _ _ _ => step_unspent) (init_unspent table) forgone h
  exact fun i o wrote => inv.unpaid i o (wrote_outcome wrote)

instance (s : System) : (e : Event) → Decidable (Forgone s e)
  | .giveUp i => inferInstanceAs (Decidable (∀ c ∈ s.commits, c.1 ≠ i))
  | .execute c _ => inferInstanceAs (Decidable (∀ ended ∈ outcome (s.orders.sagas c.saga), ended.2 = false →
      ∀ args ∈ Ledger.transferArgs c.query, ¬ Ledger.Admits s.ledger.ledger args.fromId args.toId args.amount))
  | .orders _ | .send _ | .serve _ _ | .resend _ | .forward _ _ _ | .transportError _ _ | .receive _ _
  | .ledger _ | .breaker _ => .isTrue trivial

def overtaken (amount : String) : List Event :=
  posted amount ++ [.send 0, .serve (request amount) 2, .giveUp 0, .orders (.write 0 3),
    .execute (request amount) 4]

theorem canceled_orders_are_unpaid_overtaken : ∃ s,
    run (step plain) (System.initial fun _ => none) (overtaken "20000") = some s ∧
    (s.orders.sagas 0).wrote.map Prod.snd = some false ∧ CanceledUnpaid s := by
  have history : (run (step plain) (System.initial fun _ => none) (overtaken "20000")).map
      (fun s => (s.orders.sagas 0).wrote.map Prod.snd) = some (some false) := by decide +kernel
  obtain ⟨s, h, wrote⟩ := Option.map_eq_some_iff.mp history
  exact ⟨s, h, wrote, canceled_orders_are_unpaid h (by decide +kernel)⟩

/-- The ledger commits, its reply is lost, and the saga times out. -/
theorem lost_reply_cancels : ¬ ∀ s,
    run (step plain) (System.initial fun _ => none)
      (posted "20" ++ [.send 0, .serve (request "20") 2, .execute (request "20") 3, .giveUp 0,
        .orders (.write 0 4)]) = some s → CanceledUnpaid s := by
  intro law
  have history : (run (step plain) (System.initial fun _ => none)
      (posted "20" ++ [.send 0, .serve (request "20") 2, .execute (request "20") 3, .giveUp 0,
        .orders (.write 0 4)])).map
      (fun s => ((s.orders.sagas 0).wrote.map Prod.snd, s.commits.map Prod.fst)) =
        some (some false, [0]) := by decide +kernel
  obtain ⟨s, o, h, wrote, commits⟩ := exists_written history
  obtain ⟨c, member, mine⟩ : ∃ c ∈ s.commits, c.1 = 0 := List.mem_map.mp (by rw [commits]; decide)
  exact law s h 0 o wrote c member mine

end PolyglotInfinity.Saga
