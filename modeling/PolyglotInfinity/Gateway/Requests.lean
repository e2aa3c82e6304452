import Mathlib.Data.List.Infix
import Mathlib.Order.Basic
import PolyglotInfinity.Gateway.Breaker
import PolyglotInfinity.Lib.Transition

/-!
# Requests through one breaker, one after another

The two guarded calls of the gateway, `cbGet` and the proxy, and what a breaker
decides when each admitted request records its outcome before the next one asks.
-/

namespace PolyglotInfinity.Gateway

/-- What became of a call to the backend; a transport error has its text. -/
inductive Outcome where
  | error (text : String)
  | response (status : ℕ)

/-- A call with its outcome, and the clock readings of `Allow` and of the record that follows. -/
structure Attempt where
  now : ℤ
  outcome : Outcome
  later : ℤ

/-- What a request meets and, behind a response with a `Location`, what a request for that meets. -/
inductive Upstream where
  | last (outcome : Outcome)
  | located (status : ℕ) (next : Upstream)

/-- What the transport returns. -/
def Upstream.roundTrip : Upstream → Outcome
  | last outcome => outcome
  | located status _ => .response status

/-- The statuses whose `Location` an `http.Client` follows. -/
def isRedirect (status : ℕ) : Bool := [301, 302, 303, 307, 308].contains status

/-- What an `http.Client` returns for its next request when it has `sent` some before it. -/
def Upstream.follow : ℕ → Upstream → Outcome
  | _, last outcome => outcome
  | sent, located status next =>
    if isRedirect status then
      if sent + 1 ≥ 10 then .error "stopped after 10 redirects" else next.follow (sent + 1)
    else .response status

/-- `httpClient.Get`. -/
def Upstream.get (upstream : Upstream) : Outcome := upstream.follow 0

/-- A request through a guarded call. Where the backend switches protocols, the proxy has to pass that on
to its client, which `upgrades` or not. -/
structure Visit where
  now : ℤ
  upstream : Upstream
  later : ℤ
  upgrades : Bool := false

def cbGet (name : String) (cb : CircuitBreaker) (v : Visit) : CircuitBreaker × Except String ℕ :=
  let (cb, allowed) := cb.allow v.now
  if !allowed then (cb, .error ("circuit open for " ++ name))
  else match v.upstream.get with
    | .error text => (cb.recordFailure v.later, .error text)
    | .response status => (cb.recordSuccess, .ok status)

/-- The handler that `newCBProxy` returns, with the status that the client gets. -/
def newCBProxy (cb : CircuitBreaker) (v : Visit) : CircuitBreaker × ℕ :=
  let (cb, allowed) := cb.allow v.now
  if !allowed then (cb, fallbackStatus)
  else match v.upstream.roundTrip with
    | .error _ => (cb.recordFailure v.later, fallbackStatus)
    | .response status =>
      let cb := cb.modifyResponse status v.later
      -- An upgrade that fails ends in `ErrorHandler`, behind `ModifyResponse`.
      if status = 101 ∧ !v.upgrades then (cb.recordFailure v.later, fallbackStatus) else (cb, status)

def CircuitBreaker.record (cb : CircuitBreaker) (success : Bool) (now : ℤ) : CircuitBreaker :=
  if success then cb.recordSuccess else cb.recordFailure now

/-- A guarded call, up to what counts as a success. -/
def CircuitBreaker.guarded (success : Outcome → Bool) (cb : CircuitBreaker) (a : Attempt) : CircuitBreaker :=
  let (cb, allowed) := cb.allow a.now
  if allowed then cb.record (success a.outcome) a.later else cb

def Outcome.isResponse : Outcome → Bool
  | .error _ => false
  | .response _ => true

def Outcome.below500 : Outcome → Bool
  | .error _ => false
  | .response status => status < 500

theorem cbGet_guarded (name : String) (cb : CircuitBreaker) (v : Visit) :
    (cbGet name cb v).1 = cb.guarded Outcome.isResponse ⟨v.now, v.upstream.get, v.later⟩ := by
  unfold cbGet CircuitBreaker.guarded
  obtain ⟨cb', allowed⟩ := cb.allow v.now
  cases allowed with
  | false => rfl
  | true => cases v.upstream.get <;> rfl

/-- The backend switches protocols, and the proxy cannot pass it on. -/
def Visit.Stranded (v : Visit) : Prop := v.upstream.roundTrip = .response 101 ∧ v.upgrades = false

theorem newCBProxy_guarded (cb : CircuitBreaker) {v : Visit} (passed : ¬ v.Stranded) :
    (newCBProxy cb v).1 = cb.guarded Outcome.below500 ⟨v.now, v.upstream.roundTrip, v.later⟩ := by
  unfold newCBProxy CircuitBreaker.guarded
  unfold Visit.Stranded at passed
  obtain ⟨cb', allowed⟩ := cb.allow v.now
  cases allowed with
  | false => rfl
  | true =>
    cases outcome : v.upstream.roundTrip with
    | error => rfl
    | response status =>
      have kept : ¬ (status = 101 ∧ (!v.upgrades) = true) := by simpa [outcome] using passed
      simp only [Bool.not_true, Bool.false_eq_true, if_false, if_true, if_neg kept]
      by_cases failed : 500 ≤ status
      · simp [CircuitBreaker.modifyResponse, CircuitBreaker.record, Outcome.below500, failed]
      · have fine : status < 500 := not_le.mp failed
        simp [CircuitBreaker.modifyResponse, CircuitBreaker.record, Outcome.below500, failed, fine]

/-- Both callbacks of the proxy record, first a success and then a failure. -/
theorem newCBProxy_stranded {cb : CircuitBreaker} {v : Visit} (stranded : v.Stranded)
    (admitted : (cb.allow v.now).2 = true) :
    (newCBProxy cb v).1 = ((cb.allow v.now).1.record true v.later).record false v.later := by
  simp [newCBProxy, admitted, stranded.1, stranded.2, CircuitBreaker.modifyResponse, CircuitBreaker.record]

theorem guarded_refused {cb : CircuitBreaker} {a : Attempt} (refused : (cb.allow a.now).2 = false)
    (success : Outcome → Bool) : cb.guarded success a = cb := by
  simp [CircuitBreaker.guarded, refused, allow_refused refused]

theorem guarded_admitted {cb : CircuitBreaker} {a : Attempt} (admitted : (cb.allow a.now).2 = true)
    (success : Outcome → Bool) : cb.guarded success a = (cb.allow a.now).1.record (success a.outcome) a.later := by
  simp [CircuitBreaker.guarded, admitted]

/-! ### A breaker and its history -/

/-- A success or a failure that was recorded, and when. -/
structure Recorded where
  success : Bool
  time : ℤ
  deriving DecidableEq

/-- The failures recorded since the last success; a history has its latest record first. -/
def streak : List Recorded → ℕ
  | [] => 0
  | r :: rs => if r.success then 0 else streak rs + 1

def lastFailure : List Recorded → Option ℤ
  | [] => none
  | r :: rs => if r.success then lastFailure rs else some r.time

/-- When the history alone is a reason to refuse. -/
def Tripped (threshold : Int32) (resetAfter now : ℤ) (history : List Recorded) : Prop :=
  threshold.toInt ≤ streak history ∧ ∃ t, lastFailure history = some t ∧ now - t ≤ resetAfter

def turn (success : Outcome → Bool) (s : CircuitBreaker × List Recorded) (a : Attempt) :
    CircuitBreaker × List Recorded :=
  (s.1.guarded success a, if (s.1.allow a.now).2 then ⟨success a.outcome, a.later⟩ :: s.2 else s.2)

/-- The breaker shows what its history says, between two requests. -/
structure Tracks (threshold : Int32) (resetAfter : ℤ) (s : CircuitBreaker × List Recorded) : Prop where
  sameThreshold : s.1.threshold = threshold
  sameReset : s.1.resetAfter = resetAfter
  failures : s.1.failures.toInt = streak s.2
  state : s.1.state = if threshold.toInt ≤ streak s.2 then .open else .closed
  last : 0 < streak s.2 → lastFailure s.2 = some s.1.lastFailure

section
variable {threshold : Int32} {resetAfter : ℤ} {success : Outcome → Bool} {s : CircuitBreaker × List Recorded}

theorem Tracks.allow (tracks : Tracks threshold resetAfter s) (positive : 0 < threshold) (now : ℤ) :
    (s.1.allow now).2 = false ↔ Tripped threshold resetAfter now s.2 := by
  have above : 0 < threshold.toInt := Int32.lt_iff_toInt_lt.mp positive
  unfold CircuitBreaker.allow Tripped
  rw [tracks.state, tracks.sameReset]
  by_cases tripped : threshold.toInt ≤ streak s.2
  · rw [if_pos tripped, tracks.last (by omega)]
    simp only [tripped, true_and, Option.some.injEq, exists_eq_left']
    split
    · rename_i late
      simp only [Bool.true_eq_false, false_iff]
      omega
    · rename_i early
      simp only [true_iff]
      omega
  · simp [tripped]

theorem turn_extends (s : CircuitBreaker × List Recorded) (a : Attempt) : s.2 <:+ (turn success s a).2 := by
  unfold turn
  split
  · exact List.suffix_cons _ _
  · exact List.suffix_refl _

theorem fresh_tracks (positive : 0 < threshold) : Tracks threshold resetAfter (fresh threshold resetAfter, []) := by
  have above : 0 < threshold.toInt := Int32.lt_iff_toInt_lt.mp positive
  constructor
  · rfl
  · rfl
  · rfl
  · exact (if_neg (Int.not_le.mpr above)).symm
  · exact fun none => absurd none (lt_irrefl 0)

theorem Tracks.succeeds (tracks : Tracks threshold resetAfter s) (positive : 0 < threshold)
    (state : CbState) (now : ℤ) :
    Tracks threshold resetAfter
      (CircuitBreaker.record { s.1 with state } true now, ⟨true, now⟩ :: s.2) := by
  have above : 0 < threshold.toInt := Int32.lt_iff_toInt_lt.mp positive
  constructor
  · exact tracks.sameThreshold
  · exact tracks.sameReset
  · rfl
  · exact (if_neg (Int.not_le.mpr above)).symm
  · exact fun none => absurd none (lt_irrefl 0)

theorem Tracks.fails (tracks : Tracks threshold resetAfter s) {state : CbState}
    (steady : state = .closed ↔ s.1.state = .closed) (now : ℤ) (few : streak s.2 + 1 < 2 ^ 31) :
    Tracks threshold resetAfter
      (CircuitBreaker.record { s.1 with state } false now, ⟨false, now⟩ :: s.2) := by
  obtain ⟨cb, history⟩ := s
  obtain ⟨sameThreshold, sameReset, failures, shown, -⟩ := tracks
  simp only at sameThreshold sameReset failures shown few steady
  have count : (cb.failures + 1).toInt = streak history + 1 := by
    rw [toInt_succ (by omega), failures]
  have tripped : threshold ≤ cb.failures + 1 ↔ threshold.toInt ≤ (streak history : ℤ) + 1 := by
    rw [Int32.le_iff_toInt_le, count]
  simp only [CircuitBreaker.record, Bool.false_eq_true, if_false, CircuitBreaker.recordFailure,
    ge_iff_le, sameThreshold, tripped]
  split
  · rename_i reached
    exact ⟨rfl, sameReset, count, (if_pos reached).symm, fun _ => rfl⟩
  · rename_i short
    -- Below the threshold the breaker was closed, and `Allow` left it so.
    have closed : cb.state = .closed := by rw [shown, if_neg (by omega)]
    exact ⟨rfl, sameReset, count, (steady.mpr closed).trans (if_neg short).symm, fun _ => rfl⟩

theorem turn_tracks {a : Attempt} (tracks : Tracks threshold resetAfter s) (positive : 0 < threshold)
    (few : streak (turn success s a).2 < 2 ^ 31) : Tracks threshold resetAfter (turn success s a) := by
  unfold turn at few ⊢
  cases allowed : (s.1.allow a.now).2 with
  | false =>
    rw [guarded_refused allowed]
    exact tracks
  | true =>
    obtain ⟨state, probe, steady⟩ := allow_state s.1 a.now
    rw [guarded_admitted allowed, probe, if_pos rfl]
    rw [allowed, if_pos rfl] at few
    cases outcome : success a.outcome with
    | true => exact tracks.succeeds positive state a.later
    | false =>
      rw [outcome] at few
      exact tracks.fails steady a.later few

/-- After any requests, none with 2^31 failures in a row before it, the breaker
refuses exactly when its history says so. -/
theorem allow_refuses_iff (positive : 0 < threshold) (attempts : List Attempt)
    (few : ∀ earlier, earlier <:+ (attempts.foldl (turn success) (fresh threshold resetAfter, [])).2 →
      streak earlier < 2 ^ 31) (now : ℤ) :
    let s := attempts.foldl (turn success) (fresh threshold resetAfter, [])
    (s.1.allow now).2 = false ↔ Tripped threshold resetAfter now s.2 := by
  have tracks : Tracks threshold resetAfter (attempts.foldl (turn success) (fresh threshold resetAfter, [])) := by
    induction attempts using List.reverseRecOn with
    | nil => exact fresh_tracks positive
    | append_singleton attempts a ih =>
      rw [List.foldl_append, List.foldl_cons, List.foldl_nil] at few ⊢
      refine turn_tracks (ih fun earlier suffix => few earlier (suffix.trans ?_)) positive
        (few _ (List.suffix_refl _))
      exact turn_extends _ a
  exact tracks.allow positive now

end

/-- Three requests that the backend does not answer. -/
def outage : List Attempt := [⟨0, .error "refused", 1⟩, ⟨2, .error "refused", 3⟩, ⟨4, .error "refused", 5⟩]

theorem allow_refuses_iff_outage :
    ((outage.foldl (turn Outcome.below500) (fresh 3 30, [])).1.allow 35).2 = false ∧
      ¬ ((outage.foldl (turn Outcome.below500) (fresh 3 30, [])).1.allow 36).2 = false := by
  have few : ∀ earlier ∈ (outage.foldl (turn Outcome.below500) (fresh 3 30, [])).2.tails,
      streak earlier < 2 ^ 31 := by decide +kernel
  have law := @allow_refuses_iff 3 30 Outcome.below500 (by decide) outage
    fun earlier suffix => few earlier ((List.mem_tails _ _).mpr suffix)
  refine ⟨(law 35).mpr ⟨by decide +kernel, 5, by decide +kernel, by decide⟩, fun refused => ?_⟩
  obtain ⟨-, t, last, soon⟩ := (law 36).mp refused
  have five : some t = some 5 := last.symm.trans (by decide +kernel)
  obtain rfl := Option.some.inj five
  exact absurd soon (by decide)

/-! ### The two guarded calls compared -/

/-- The same request through `cbGet` on one breaker and the proxy on another. -/
def bothPaths (name : String) (s : CircuitBreaker × CircuitBreaker) (v : Visit) :
    Option (CircuitBreaker × CircuitBreaker) :=
  some ((cbGet name s.1 v).1, (newCBProxy s.2 v).1)

/-- Two breakers in the same state, with the same count, that decide alike. -/
def Alike (s : CircuitBreaker × CircuitBreaker) : Prop :=
  s.1.state = s.2.state ∧ s.1.failures = s.2.failures ∧ ∀ now, (s.1.allow now).2 = (s.2.allow now).2

/-- How many redirects lie between a request and what it ends in. -/
def Upstream.redirects : Upstream → ℕ
  | last _ => 0
  | located status next => if isRedirect status then next.redirects + 1 else 0

def Upstream.final : Upstream → Outcome
  | last outcome => outcome
  | located status next => if isRedirect status then next.final else .response status

/-- If the backend answers, it is below 500, with no upgrade that fails and no redirect that leads nowhere. -/
def Visit.Plain (v : Visit) : Prop := ∀ status, v.upstream.roundTrip = .response status →
  status < 500 ∧ (status = 101 → v.upgrades = true) ∧
    v.upstream.redirects < 10 ∧ v.upstream.final.isResponse = true

/-- An admitted request is plain. -/
def AdmittedPlain (s : CircuitBreaker × CircuitBreaker) (v : Visit) : Prop :=
  (s.1.allow v.now).2 = true → v.Plain

theorem follow_eq {sent : ℕ} (room : sent < 10) (upstream : Upstream) : upstream.follow sent =
    if sent + upstream.redirects < 10 then upstream.final else .error "stopped after 10 redirects" := by
  induction upstream generalizing sent with
  | last outcome => rw [Upstream.redirects, Nat.add_zero, if_pos room]; rfl
  | located status next ih =>
    simp only [Upstream.follow, Upstream.redirects, Upstream.final]
    split
    · by_cases more : sent + 1 < 10
      · rw [if_neg (Nat.not_le.mpr more), ih more, Nat.add_right_comm, Nat.add_assoc]
      · rw [if_pos (Nat.not_lt.mp more), if_neg (by omega)]
    · rw [Nat.add_zero, if_pos room]

theorem get_isResponse (upstream : Upstream) :
    upstream.get.isResponse = true ↔ upstream.redirects < 10 ∧ upstream.final.isResponse = true := by
  rw [Upstream.get, follow_eq (by decide), Nat.zero_add]
  split
  · rename_i few
    exact (and_iff_right few).symm
  · rename_i many
    simp [many, Outcome.isResponse]

/-- What is no redirect is followed nowhere. -/
theorem get_direct {upstream : Upstream} {status : ℕ} (answered : upstream.roundTrip = .response status)
    (direct : isRedirect status = false) : upstream.get = .response status := by
  cases upstream with
  | last outcome => exact answered
  | located other next =>
    obtain rfl := Outcome.response.inj answered
    simp [Upstream.get, Upstream.follow, direct]

theorem get_error {upstream : Upstream} {text : String} (failed : upstream.roundTrip = .error text) :
    upstream.get = .error text := by
  cases upstream with
  | last outcome => exact failed
  | located status next => cases failed

/-- The plain requests are those that both calls classify alike. -/
theorem plain_iff {v : Visit} :
    v.Plain ↔ ¬ v.Stranded ∧ v.upstream.get.isResponse = v.upstream.roundTrip.below500 := by
  unfold Visit.Plain Visit.Stranded
  cases outcome : v.upstream.roundTrip with
  | error text => simp [get_error outcome, Outcome.isResponse, Outcome.below500]
  | response status =>
    simp only [Outcome.response.injEq, forall_eq', ← get_isResponse, not_and, Bool.not_eq_false]
    by_cases below : status < 500
    · simp only [below, true_and, Outcome.below500, decide_true]
    · have direct : isRedirect status = false := by
        simp only [isRedirect, List.contains_eq_mem, List.mem_cons, List.not_mem_nil, or_false,
          decide_eq_false_iff_not]
        omega
      simp [below, get_direct outcome direct, Outcome.isResponse, Outcome.below500]

/-- A closed breaker has counted no failure, or some below its threshold. -/
def Counting (cb : CircuitBreaker) : Prop :=
  cb.state = .closed → 0 ≤ cb.failures.toInt ∧ cb.failures < cb.threshold

theorem record_threshold (cb : CircuitBreaker) (success : Bool) (now : ℤ) :
    (cb.record success now).threshold = cb.threshold := by
  cases success with
  | true => rfl
  | false =>
    simp only [CircuitBreaker.record, Bool.false_eq_true, if_false, CircuitBreaker.recordFailure]
    split <;> rfl

theorem Counting.succ {cb : CircuitBreaker} (counting : Counting cb) (closed : cb.state = .closed) :
    (cb.failures + 1).toInt = cb.failures.toInt + 1 := by
  have below := Int32.lt_iff_toInt_lt.mp (counting closed).2
  have high := Int32.toInt_lt cb.threshold
  exact toInt_succ (by omega)

theorem Counting.record {cb : CircuitBreaker} (counting : Counting cb) (positive : 0 < cb.threshold)
    (success : Bool) (now : ℤ) : Counting (cb.record success now) := by
  cases success with
  | true => exact fun _ => ⟨Int.le_refl 0, positive⟩
  | false =>
    simp only [CircuitBreaker.record, Bool.false_eq_true, if_false, CircuitBreaker.recordFailure]
    split
    · exact fun closed => absurd closed (by simp)
    · rename_i short
      intro closed
      have next := counting.succ closed
      have nonneg := (counting closed).1
      rw [ge_iff_le, Int32.le_iff_toInt_le] at short
      exact ⟨by simp only [next]; omega, Int32.lt_iff_toInt_lt.mpr (Int.not_le.mp short)⟩

theorem Counting.apart {cb : CircuitBreaker} (counting : Counting cb) (now : ℤ) :
    ¬ Alike (cb.record true now, cb.record false now) := by
  simp only [Alike, CircuitBreaker.record, CircuitBreaker.recordSuccess, CircuitBreaker.recordFailure,
    Bool.false_eq_true, if_true, if_false, ge_iff_le]
  rintro ⟨shown, counted, -⟩
  split at shown
  · cases shown
  · -- The failure left the breaker closed as it was, so its count is above zero.
    rename_i short
    rw [if_neg short] at counted
    have zero : cb.failures + 1 = 0 := counted.symm
    have next := counting.succ shown.symm
    have nonneg := (counting shown.symm).1
    rw [zero, Int32.toInt_zero] at next
    omega

theorem Alike.symm {s : CircuitBreaker × CircuitBreaker} (alike : Alike s) : Alike s.swap :=
  ⟨alike.1.symm, alike.2.1.symm, fun now => (alike.2.2 now).symm⟩

/-- While they are alike, the two breakers are equal. -/
def Matched (s : CircuitBreaker × CircuitBreaker) : Prop :=
  Alike s → s.1 = s.2 ∧ 0 < s.1.threshold ∧ Counting s.1

theorem bothPaths_alike {name : String} {s t : CircuitBreaker × CircuitBreaker} {v : Visit}
    (matched : Matched s) (alike : Alike s) (h : bothPaths name s v = some t) :
    Matched t ∧ (Alike t ↔ AdmittedPlain s v) := by
  obtain ⟨cb, other⟩ := s
  obtain ⟨same, positive, counting⟩ := matched alike
  obtain rfl : cb = other := same
  obtain rfl := Option.some.inj h
  cases allowed : (cb.allow v.now).2 with
  | false =>
    have still : (newCBProxy cb v).1 = cb := by simp [newCBProxy, allowed, allow_refused allowed]
    rw [cbGet_guarded, guarded_refused allowed, still]
    exact ⟨matched, iff_of_true alike fun admitted => absurd (allowed.symm.trans admitted) (by simp)⟩
  | true =>
    obtain ⟨state, probe, steady⟩ := allow_state cb v.now
    have counts : Counting { cb with state } := fun closed => counting (steady.mp closed)
    rw [cbGet_guarded, guarded_admitted allowed, probe]
    have plain : AdmittedPlain (cb, cb) v ↔ v.Plain := forall_prop_of_true allowed
    rw [plain, plain_iff]
    by_cases stranded : v.Stranded
    · have response : v.upstream.get.isResponse = true := by rw [get_direct stranded.1 rfl]; rfl
      rw [newCBProxy_stranded stranded allowed, probe, response]
      -- Another success on top of the first would change neither state nor count.
      have apart : ¬ Alike (CircuitBreaker.record { cb with state } true v.later,
          (CircuitBreaker.record { cb with state } true v.later).record false v.later) :=
        (counts.record positive true v.later).apart v.later
      exact ⟨fun alike => absurd alike apart, iff_of_false apart fun plain => plain.1 stranded⟩
    · rw [newCBProxy_guarded cb stranded, guarded_admitted allowed, probe]
      by_cases fine : v.upstream.get.isResponse = v.upstream.roundTrip.below500
      · rw [fine]
        refine ⟨fun _ => ⟨rfl, ?_, counts.record positive _ _⟩,
          iff_of_true ⟨rfl, rfl, fun _ => rfl⟩ ⟨stranded, rfl⟩⟩
        rw [record_threshold]
        exact positive
      · have apart : ¬ Alike (CircuitBreaker.record { cb with state } v.upstream.get.isResponse v.later,
            CircuitBreaker.record { cb with state } v.upstream.roundTrip.below500 v.later) := by
          cases get : v.upstream.get.isResponse <;> cases answer : v.upstream.roundTrip.below500
          · exact absurd (get.trans answer.symm) fine
          · exact fun alike => counts.apart v.later alike.symm
          · exact counts.apart v.later
          · exact absurd (get.trans answer.symm) fine
        exact ⟨fun alike => absurd alike apart, iff_of_false apart fun plain => fine plain.2⟩

/-- The two paths keep their breakers alike exactly as long as every admitted request is plain. -/
theorem guarded_calls_alike (name : String) (visits : List Visit) :
    Transition.Always (bothPaths name) Alike ({}, {}) visits ↔
      Transition.Along (bothPaths name) AdmittedPlain ({}, {}) visits := by
  have start : Matched ({}, {}) := fun _ => ⟨rfl, by decide, fun _ => by decide⟩
  exact Transition.always_iff_along (fun _ _ _ matched alike h => (bothPaths_alike matched alike h).1)
    (fun _ _ _ matched alike h => (bothPaths_alike matched alike h).2) start ⟨rfl, rfl, fun _ => rfl⟩

/-- A backend that answers 503 opens the proxy's breaker and never that of `cbGet`. -/
theorem server_errors_open_one : ¬ Transition.Always (bothPaths "Python-Brain") Alike ({}, {})
    [⟨0, .last (.response 503), 1, false⟩, ⟨2, .last (.response 503), 3, false⟩,
      ⟨4, .last (.response 503), 5, false⟩] := by
  rintro ⟨-, first⟩
  obtain ⟨-, second⟩ := first _ rfl
  obtain ⟨-, third⟩ := second _ rfl
  exact absurd (third _ rfl).1 (by decide)

end PolyglotInfinity.Gateway
