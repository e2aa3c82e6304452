import PolyglotInfinity.Apm.Encode
import PolyglotInfinity.Gateway.ApmDrainer
import PolyglotInfinity.Gateway.RiskWorkflow

/-!
# Metrics on their way

The Go hub, the collector of the Java service and the metrics server together. A POST is a
message: it may arrive late, behind later ones or not at all, but never twice. `init` of the
collector starts one drain thread, whose flushes have the number 0.
-/

namespace PolyglotInfinity.Gateway

/-- The fields of the struct under their tags. -/
def ApmEvent.data (ev : ApmEvent) : GoValue ℤ := .map [
  ("correlationId".toList, text ev.correlationId),
  ("service".toList, text ev.service),
  ("endpoint".toList, text ev.endpoint),
  ("responseMs".toList, .num ev.responseMs),
  ("timestamp".toList, .num ev.timestamp)]

def ApmEvent.toJson (ev : ApmEvent) : Json := .obj [
  jsonMember "correlationId" (jsonString ev.correlationId),
  jsonMember "service" (jsonString ev.service),
  jsonMember "endpoint" (jsonString ev.endpoint),
  jsonMember "responseMs" (.num ev.responseMs),
  jsonMember "timestamp" (.num ev.timestamp)]

/-- The text that `sendAPMBatch` makes of a batch with `json.Marshal`. -/
def marshalBatch (batch : List ApmEvent) : String :=
  String.ofList ((style integers).write (.list (batch.map ApmEvent.data)))

theorem denote_data (batch : List ApmEvent) :
    Json.denoteItems Json.units integers.value (batch.map ApmEvent.data) = batch.map ApmEvent.toJson := by
  induction batch with
  | nil => rfl
  | cons ev batch ih =>
    rw [List.map_cons, Json.denoteItems, ih]
    rfl

theorem parse_marshalBatch (batch : List ApmEvent) :
    Json.parse (marshalBatch batch) = some (.arr (batch.map ApmEvent.toJson)) := by
  rw [Json.parse, marshalBatch, String.toList_ofList, (style_reads integers).write, Json.denote, denote_data]

/-- The events that found the queue full. -/
def Apm.refused (s : Apm) : List ApmEvent := (s.recorded.filter (queueCapacity ≤ ·.2)).map Prod.fst

/-- Nothing of what was recorded is anywhere else. -/
theorem Drained.recorded {s : Apm} (drained : Drained 99 s) :
    (s.refused ++ (s.unread.flatten ++ s.current ++ s.queue.buffer) ++ s.posted.flatten).Perm
      (s.recorded.map Prod.fst) := by
  have kept : s.posted.flatten ++ (s.unread.flatten ++ s.current ++ s.queue.buffer) = s.kept := by
    rw [← drained.content, drained.read, List.flatten_append]
    simp only [List.append_assoc]
  have split : (s.kept ++ s.refused).Perm (s.recorded.map Prod.fst) := by
    have parts := List.filter_append_perm (fun ev : ApmEvent × ℕ => decide (ev.2 < queueCapacity)) s.recorded
    simp only [← decide_not, Nat.not_lt] at parts
    simpa [Apm.kept, Apm.refused] using parts.map Prod.fst
  refine List.Perm.trans ?_ split
  rw [← kept, List.append_assoc]
  exact List.perm_append_comm.trans (List.Perm.append_right _ List.perm_append_comm)

theorem step_posted {s t : Apm} {e : ApmStep} (taken : s.step e = some t) : s.posted <+: t.posted := by
  rcases step_cases taken with ⟨r, -, recorded⟩ | ⟨-, rfl⟩ | ⟨-, -, received⟩ | ⟨-, -, ticked⟩ | ⟨len, -, -, rfl⟩ |
    ⟨-, -, rfl⟩
  · unfold Apm.record at recorded
    dsimp only at recorded
    split at recorded
    · obtain rfl := Option.some.inj recorded
      exact List.prefix_rfl
    · obtain rfl := Option.some.inj recorded
      exact List.prefix_rfl
    · contradiction
  · exact List.prefix_rfl
  · obtain ⟨ev, queue, -, rfl⟩ := receive_cases received
    split <;> exact List.prefix_rfl
  · obtain rfl := tick_cases ticked
    split <;> exact List.prefix_rfl
  · exact List.prefix_append _ _
  · exact List.prefix_rfl

end PolyglotInfinity.Gateway

namespace PolyglotInfinity.Apm

open Gateway (ApmEvent ApmStep)
open Transition (run)

/-! ### The collector -/

section Collecting

/-- What the drain thread has taken for the batch of its flush. -/
def Collector.batch (s : Collector) : List TransactionMetric := (s.flushes 0).getD []

/-- A step of a `record` call or of the drain thread. -/
def Access.ofService : Access → Bool
  | .size _ | .offer _ => true
  | .isEmpty f | .poll f => f = 0

def Access.recorded : Access → Option TransactionMetric
  | .size m => some m
  | .offer _ | .isEmpty _ | .poll _ => none

/-- Every recorded metric is in one place, and the batches have the size that they may have. -/
structure Collected (recorded : List TransactionMetric) (s : Collector) : Prop where
  content : (s.dropped ++ s.passed ++ s.queue ++ s.batch ++ s.sent.flatten).Perm recorded
  room : s.batch.length < batchSize
  sizes : ∀ batch ∈ s.sent, batch.length ≤ batchSize

theorem init_collected : Collected [] {} :=
  ⟨List.Perm.refl _, by decide, fun _ none => absurd none List.not_mem_nil⟩

variable {s t : Collector} {recorded : List TransactionMetric} {a : Access}

/-- What the drain thread takes from the queue goes into the batch, which is sent when it is
full or the queue is empty. -/
theorem poll_cases (polled : s.step (.poll 0) = some t) :
    (s.queue = [] ∧ t = s.post 0 s.batch) ∨
    (∃ m queue, s.queue = m :: queue ∧ s.batch.length + 1 < batchSize ∧
      t = { s with queue, flushes := Function.update s.flushes 0 (some (s.batch ++ [m])) }) ∨
    ∃ m queue, s.queue = m :: queue ∧ ¬ s.batch.length + 1 < batchSize ∧
      t = Collector.post { s with queue } 0 (s.batch ++ [m]) := by
  unfold Collector.step at polled
  cases under : s.flushes 0 with
  | none => simp [under] at polled
  | some batch =>
    have taken : s.batch = batch := by rw [Collector.batch, under, Option.getD_some]
    simp only [under, taken] at polled ⊢
    split at polled
    · exact .inl ⟨‹_›, (Option.some.inj polled).symm⟩
    · rename_i m queue next
      split at polled
      · exact .inr (.inl ⟨m, queue, next, ‹_›, (Option.some.inj polled).symm⟩)
      · exact .inr (.inr ⟨m, queue, next, ‹_›, (Option.some.inj polled).symm⟩)

theorem Collected.post {m : List TransactionMetric} {queue : List TransactionMetric} (collected : Collected recorded s)
    (next : s.queue = m ++ queue) (size : s.batch.length + m.length ≤ batchSize) :
    Collected recorded (Collector.post { s with queue } 0 (s.batch ++ m)) := by
  obtain ⟨content, room, sizes⟩ := collected
  have emptied : (Collector.post { s with queue } 0 (s.batch ++ m)).batch = [] := by
    simp [Collector.batch, Collector.post]
  have sent : (Collector.post { s with queue } 0 (s.batch ++ m)).sent.flatten = s.sent.flatten ++ (s.batch ++ m) := by
    simp only [Collector.post]
    split
    · rename_i none
      rw [none, List.append_nil]
    · rw [List.flatten_concat]
  refine ⟨?_, by rw [emptied]; decide, ?_⟩
  · rw [emptied, sent]
    show (s.dropped ++ s.passed ++ queue ++ [] ++ (s.sent.flatten ++ (s.batch ++ m))).Perm recorded
    rw [next] at content
    refine List.Perm.trans ?_ content
    rw [List.perm_iff_count]
    intro x
    simp only [List.count_append, List.count_nil]
    omega
  · intro batch batch_mem
    simp only [Collector.post] at batch_mem
    split at batch_mem
    · exact sizes batch batch_mem
    · rcases List.mem_append.mp batch_mem with old | new
      · exact sizes batch old
      · rw [List.mem_singleton.mp new, List.length_append]
        exact size

theorem isEmpty_cases (asked : s.step (.isEmpty 0) = some t) :
    s.flushes 0 = none ∧ (t = s ∨ t = { s with flushes := Function.update s.flushes 0 (some []) }) := by
  unfold Collector.step at asked
  cases under : s.flushes 0 with
  | some batch => simp [under] at asked
  | none =>
    simp only [under, Option.some.injEq] at asked
    subst asked
    split
    · exact ⟨rfl, .inl rfl⟩
    · exact ⟨rfl, .inr rfl⟩

theorem Collected.size (collected : Collected recorded s) {m : TransactionMetric} (read : s.step (.size m) = some t) :
    Collected (recorded ++ [m]) t := by
  obtain ⟨content, room, sizes⟩ := collected
  obtain rfl := Option.some.inj read
  split
  · refine ⟨?_, room, sizes⟩
    show (s.dropped ++ [m] ++ s.passed ++ s.queue ++ s.batch ++ s.sent.flatten).Perm (recorded ++ [m])
    rw [List.perm_iff_count] at content ⊢
    intro x
    have before := content x
    simp only [List.count_append] at before ⊢
    omega
  · refine ⟨?_, room, sizes⟩
    show (s.dropped ++ (s.passed ++ [m]) ++ s.queue ++ s.batch ++ s.sent.flatten).Perm (recorded ++ [m])
    rw [List.perm_iff_count] at content ⊢
    intro x
    have before := content x
    simp only [List.count_append] at before ⊢
    omega

theorem Collected.offer (collected : Collected recorded s) {m : TransactionMetric} (read : s.step (.offer m) = some t) :
    Collected recorded t := by
  obtain ⟨content, room, sizes⟩ := collected
  obtain ⟨held, rfl⟩ := offer_eq.mp read
  refine ⟨?_, room, sizes⟩
  show (s.dropped ++ s.passed.erase m ++ (s.queue ++ [m]) ++ s.batch ++ s.sent.flatten).Perm recorded
  refine List.Perm.trans ?_ content
  have moved := List.perm_cons_erase held
  rw [List.perm_iff_count] at moved ⊢
  intro x
  have here := moved x
  rw [← List.singleton_append, List.count_append] at here
  simp only [List.count_append]
  omega

theorem Collected.poll (collected : Collected recorded s) (polled : s.step (.poll 0) = some t) :
    Collected recorded t := by
  have room := collected.room
  rcases poll_cases polled with ⟨drained, rfl⟩ | ⟨m, queue, next, short, rfl⟩ | ⟨m, queue, next, full, rfl⟩
  · have sent := @Collected.post s recorded [] s.queue collected rfl (Nat.le_of_lt room)
    rwa [List.append_nil] at sent
  · refine ⟨?_, ?_, collected.sizes⟩
    · have batch : Collector.batch { s with queue, flushes := Function.update s.flushes 0 (some (s.batch ++ [m])) } =
          s.batch ++ [m] := by simp [Collector.batch]
      rw [batch]
      have content := collected.content
      rw [next] at content
      refine List.Perm.trans ?_ content
      rw [List.perm_iff_count]
      intro x
      simp only [List.count_append, List.count_cons, List.count_nil]
      omega
    · simpa [Collector.batch] using short
  · have size : s.batch.length + [m].length ≤ batchSize := room
    exact collected.post next size

theorem step_collected (collected : Collected recorded s) (service : a.ofService) (taken : s.step a = some t) :
    Collected (recorded ++ a.recorded.toList) t := by
  cases a with
  | size m => exact collected.size taken
  | offer m => exact (List.append_nil recorded).symm ▸ collected.offer taken
  | isEmpty f =>
    obtain rfl : f = 0 := of_decide_eq_true service
    rw [Access.recorded, Option.toList_none, List.append_nil]
    obtain ⟨idle, rfl | rfl⟩ := isEmpty_cases taken
    · exact collected
    · obtain ⟨content, -, sizes⟩ := collected
      have before : s.batch = [] := by rw [Collector.batch, idle, Option.getD_none]
      have batch : Collector.batch { s with flushes := Function.update s.flushes 0 (some []) } = [] := by
        simp [Collector.batch]
      rw [before] at content
      exact ⟨by rw [batch]; exact content, by rw [batch]; decide, sizes⟩
  | poll f =>
    obtain rfl : f = 0 := of_decide_eq_true service
    rw [Access.recorded, Option.toList_none, List.append_nil]
    exact collected.poll taken

theorem run_collected {as : List Access} (collected : Collected recorded s) (service : ∀ a ∈ as, a.ofService)
    (ran : run Collector.step s as = some t) : Collected (recorded ++ as.filterMap Access.recorded) t := by
  induction as generalizing s recorded with
  | nil =>
    obtain rfl := Option.some.inj ran
    simpa using collected
  | cons a as ih =>
    obtain ⟨u, first, rest⟩ := Transition.run_cons.mp ran
    rw [List.forall_mem_cons] at service
    have later := ih (step_collected collected service.1 first) service.2 rest
    rw [List.append_assoc] at later
    have split : (a :: as).filterMap Access.recorded = a.recorded.toList ++ as.filterMap Access.recorded := by
      cases own : a.recorded <;> simp [own]
    rwa [split]

theorem step_sent (service : a.ofService) (taken : s.step a = some t) : s.sent <+: t.sent := by
  have post : ∀ (s : Collector) batch, s.sent <+: (s.post 0 batch).sent := by
    intro s batch
    unfold Collector.post
    split
    · exact List.prefix_rfl
    · exact List.prefix_append _ _
  cases a with
  | size m =>
    obtain rfl := Option.some.inj taken
    split <;> exact List.prefix_rfl
  | offer m =>
    obtain ⟨-, rfl⟩ := offer_eq.mp taken
    exact List.prefix_rfl
  | isEmpty f =>
    obtain rfl : f = 0 := of_decide_eq_true service
    obtain ⟨-, rfl | rfl⟩ := isEmpty_cases taken <;> exact List.prefix_rfl
  | poll f =>
    obtain rfl : f = 0 := of_decide_eq_true service
    rcases poll_cases taken with ⟨-, rfl⟩ | ⟨m, queue, -, -, rfl⟩ | ⟨m, queue, -, -, rfl⟩
    · exact post _ _
    · exact List.prefix_rfl
    · exact post { s with queue } _

end Collecting

/-! ### The posts -/

inductive Post where
  | hub (batch : List ApmEvent)
  | java (batch : List TransactionMetric)
  deriving DecidableEq

namespace Post

def body : Post → String
  | hub batch => Gateway.marshalBatch batch
  | java batch => toJsonArray batch

def events : Post → List Json
  | hub batch => batch.map ApmEvent.toJson
  | java batch => batch.map TransactionMetric.toJson

/-- The server can read the body. -/
def Readable : Post → Prop
  | hub _ => True
  | java batch => ∀ t ∈ batch, t.Printable

instance (p : Post) : Decidable p.Readable :=
  match p with
  | hub _ => .isTrue trivial
  | java batch => inferInstanceAs (Decidable (∀ t ∈ batch, t.Printable))

theorem parse_body (p : Post) : Json.parse p.body = if p.Readable then some (.arr p.events) else none := by
  cases p with
  | hub batch => exact (Gateway.parse_marshalBatch batch).trans (if_pos trivial).symm
  | java batch => exact parse_toJsonArray batch

/-- An event is an object of texts and numbers. -/
theorem events_flat {p : Post} {e : Json} (member : e ∈ p.events) : e.isNull = false ∧ e.depth = 1 := by
  cases p with
  | hub batch =>
    obtain ⟨ev, -, rfl⟩ := List.mem_map.mp member
    exact ⟨rfl, rfl⟩
  | java batch =>
    obtain ⟨t, -, rfl⟩ := List.mem_map.mp member
    exact ⟨rfl, rfl⟩

end Post

/-! ### The services and the network -/

structure Pipeline where
  hub : Gateway.Apm := .init
  java : Collector := {}
  /-- The POSTs under way. -/
  wire : List Post := []
  buffer : List Json := []
  /-- The POSTs that did not arrive or that the server refused. Ghost, as the next one. -/
  lost : List Post := []
  stored : List Post := []

inductive PipelineStep where
  | hub (e : ApmStep)
  | java (a : Access)
  | arrive (p : Post)
  | lose (p : Post)

namespace PipelineStep

def ofHub : PipelineStep → Option ApmStep
  | hub e => some e
  | java _ | arrive _ | lose _ => none

def ofJava : PipelineStep → Option Access
  | java a => some a
  | hub _ | arrive _ | lose _ => none

/-- The metric that one of the services records. -/
def recorded : PipelineStep → Option Json
  | hub e => e.event.map ApmEvent.toJson
  | java a => a.recorded.map TransactionMetric.toJson
  | arrive _ | lose _ => none

end PipelineStep

def Pipeline.arrive (s : Pipeline) (p : Post) : Pipeline :=
  match handleIngest s.buffer p.body with
  | (buffer, .accepted _ _) => { s with wire := s.wire.erase p, buffer, stored := s.stored ++ [p] }
  | (buffer, _) => { s with wire := s.wire.erase p, buffer, lost := s.lost ++ [p] }

def Pipeline.step (s : Pipeline) : PipelineStep → Option Pipeline
  | .hub e => (s.hub.step e).map fun hub =>
      { s with hub, wire := s.wire ++ (hub.posted.drop s.hub.posted.length).map .hub }
  | .java a =>
    if a.ofService then (s.java.step a).map fun java =>
      { s with java, wire := s.wire ++ (java.sent.drop s.java.sent.length).map .java }
    else none
  | .arrive p => if p ∈ s.wire then some (s.arrive p) else none
  | .lose p => if p ∈ s.wire then some { s with wire := s.wire.erase p, lost := s.lost ++ [p] } else none

namespace Pipeline

def refused (s : Pipeline) : List Json :=
  s.hub.refused.map ApmEvent.toJson ++ s.java.dropped.map TransactionMetric.toJson

def waiting (s : Pipeline) : List Json :=
  (s.hub.unread.flatten ++ s.hub.current ++ s.hub.queue.buffer).map ApmEvent.toJson ++
    (s.java.passed ++ s.java.queue ++ s.java.batch).map TransactionMetric.toJson

def shown (s : Pipeline) : List Json := s.stored.flatMap Post.events

variable {s t : Pipeline} {e : PipelineStep} {p : Post} {es : List PipelineStep}

theorem arrive_eq (s : Pipeline) (p : Post) : s.arrive p =
    if p.Readable then
      { s with wire := s.wire.erase p, buffer := ingest s.buffer p.events, stored := s.stored ++ [p] }
    else { s with wire := s.wire.erase p, lost := s.lost ++ [p] } := by
  have parsed := p.parse_body
  unfold arrive
  by_cases readable : p.Readable
  · rw [if_pos readable] at parsed ⊢
    rw [post_accepted parsed]
  · rw [if_neg readable] at parsed ⊢
    rw [post_rejected parsed]

theorem step_cases (taken : s.step e = some t) :
    (∃ d hub, e = .hub d ∧ s.hub.step d = some hub ∧
      t = { s with hub, wire := s.wire ++ (hub.posted.drop s.hub.posted.length).map .hub }) ∨
    (∃ a java, e = .java a ∧ a.ofService ∧ s.java.step a = some java ∧
      t = { s with java, wire := s.wire ++ (java.sent.drop s.java.sent.length).map .java }) ∨
    (∃ p, e = .arrive p ∧ p ∈ s.wire ∧ p.Readable ∧
      t = { s with wire := s.wire.erase p, buffer := ingest s.buffer p.events, stored := s.stored ++ [p] }) ∨
    ∃ p, (e = .lose p ∨ e = .arrive p ∧ ¬ p.Readable) ∧ p ∈ s.wire ∧
      t = { s with wire := s.wire.erase p, lost := s.lost ++ [p] } := by
  cases e with
  | hub d =>
    obtain ⟨hub, stepped, rfl⟩ := Option.map_eq_some_iff.mp taken
    exact .inl ⟨d, hub, rfl, stepped, rfl⟩
  | java a =>
    simp only [step] at taken
    split at taken
    · obtain ⟨java, stepped, rfl⟩ := Option.map_eq_some_iff.mp taken
      exact .inr (.inl ⟨a, java, rfl, ‹_›, stepped, rfl⟩)
    · contradiction
  | arrive p =>
    simp only [step, arrive_eq] at taken
    split at taken
    · obtain rfl := Option.some.inj taken
      split
      · exact .inr (.inr (.inl ⟨p, rfl, ‹_›, ‹_›, rfl⟩))
      · exact .inr (.inr (.inr ⟨p, .inr ⟨rfl, ‹_›⟩, ‹_›, rfl⟩))
    · contradiction
  | lose p =>
    simp only [step] at taken
    split at taken
    · exact .inr (.inr (.inr ⟨p, .inl rfl, ‹_›, (Option.some.inj taken).symm⟩))
    · contradiction

/-- The POSTs of both services are under way, lost or stored, and the buffer is what the server
has made of the stored ones. -/
structure Routed (s : Pipeline) : Prop where
  posts : (s.wire ++ s.lost ++ s.stored).Perm (s.hub.posted.map .hub ++ s.java.sent.map .java)
  buffer : s.buffer = (s.stored.map Post.events).foldl ingest []

theorem init_routed : Routed {} := ⟨List.Perm.refl _, rfl⟩

theorem Routed.sends (routed : Routed s) {new posts : List Post}
    (grown : posts.Perm (s.hub.posted.map .hub ++ s.java.sent.map .java ++ new)) :
    (s.wire ++ new ++ s.lost ++ s.stored).Perm posts := by
  refine List.Perm.trans ?_ grown.symm
  apply List.Perm.trans _ (routed.posts.append_right new)
  simp only [List.append_assoc]
  apply List.Perm.append_left
  rw [← List.append_assoc s.lost]
  exact List.perm_append_comm

theorem Routed.taken (routed : Routed s) (held : p ∈ s.wire) {lost stored : List Post}
    (moved : (s.lost ++ s.stored ++ [p]).Perm (lost ++ stored)) :
    (s.wire.erase p ++ lost ++ stored).Perm (s.hub.posted.map .hub ++ s.java.sent.map .java) := by
  refine List.Perm.trans ?_ routed.posts
  have removed := List.perm_cons_erase held
  rw [List.perm_iff_count] at moved removed ⊢
  intro x
  have here := moved x
  have there := removed x
  rw [← List.singleton_append] at there
  simp only [List.count_append] at here there ⊢
  omega

theorem step_routed (routed : Routed s) (taken : s.step e = some t) : Routed t := by
  rcases step_cases taken with ⟨d, hub, -, stepped, rfl⟩ | ⟨a, java, -, service, stepped, rfl⟩ |
    ⟨p, -, held, -, rfl⟩ | ⟨p, -, held, rfl⟩
  · obtain ⟨new, grown⟩ := Gateway.step_posted stepped
    refine ⟨?_, routed.buffer⟩
    show (s.wire ++ _ ++ s.lost ++ s.stored).Perm (hub.posted.map Post.hub ++ s.java.sent.map Post.java)
    rw [← grown, List.drop_left, List.map_append]
    apply routed.sends
    rw [List.append_assoc, List.append_assoc]
    exact List.Perm.append_left _ List.perm_append_comm
  · obtain ⟨new, grown⟩ := step_sent service stepped
    refine ⟨?_, routed.buffer⟩
    show (s.wire ++ _ ++ s.lost ++ s.stored).Perm (s.hub.posted.map Post.hub ++ java.sent.map Post.java)
    rw [← grown, List.drop_left, List.map_append]
    apply routed.sends
    rw [List.append_assoc]
  · refine ⟨routed.taken held (by rw [List.append_assoc]), ?_⟩
    show ingest s.buffer p.events = ((s.stored ++ [p]).map Post.events).foldl ingest []
    rw [List.map_append, List.foldl_append, ← routed.buffer]
    rfl
  · refine ⟨routed.taken held ?_, routed.buffer⟩
    rw [List.append_assoc, List.append_assoc]
    exact List.Perm.append_left _ List.perm_append_comm

/-! ### Runs -/

theorem run_routed (ran : run step {} es = some s) : Routed s :=
  Transition.run_invariant (fun _ _ _ routed taken => step_routed routed taken) init_routed ran

theorem run_hub (ran : run step {} es = some s) :
    run Gateway.Apm.step .init (es.filterMap PipelineStep.ofHub) = some s.hub := by
  have shows : ∀ (s : Pipeline) e t, True → step s e = some t →
      run Gateway.Apm.step s.hub (PipelineStep.ofHub e).toList = some t.hub := by
    intro s e t _ taken
    rcases step_cases taken with ⟨d, hub, rfl, stepped, rfl⟩ | ⟨a, java, rfl, -, -, rfl⟩ | ⟨p, rfl, -, -, rfl⟩ |
      ⟨p, rfl | ⟨rfl, -⟩, -, rfl⟩
    · simp [PipelineStep.ofHub, run, stepped]
    all_goals rfl
  exact Transition.run_filterMap (fun _ _ _ _ _ => trivial) shows trivial ran

theorem run_java (ran : run step {} es = some s) :
    run Collector.step {} (es.filterMap PipelineStep.ofJava) = some s.java := by
  have shows : ∀ (s : Pipeline) e t, True → step s e = some t →
      run Collector.step s.java (PipelineStep.ofJava e).toList = some t.java := by
    intro s e t _ taken
    rcases step_cases taken with ⟨d, hub, rfl, -, rfl⟩ | ⟨a, java, rfl, -, stepped, rfl⟩ | ⟨p, rfl, -, -, rfl⟩ |
      ⟨p, rfl | ⟨rfl, -⟩, -, rfl⟩
    · rfl
    · simp [PipelineStep.ofJava, run, stepped]
    all_goals rfl
  exact Transition.run_filterMap (fun _ _ _ _ _ => trivial) shows trivial ran

theorem run_service (ran : run step s es = some t) : ∀ a ∈ es.filterMap PipelineStep.ofJava, a.ofService := by
  induction es generalizing s with
  | nil => exact nofun
  | cons e es ih =>
    obtain ⟨u, first, rest⟩ := Transition.run_cons.mp ran
    rcases step_cases first with ⟨d, hub, rfl, -, -⟩ | ⟨a, java, rfl, service, -, -⟩ | ⟨p, rfl, -, -, -⟩ |
      ⟨p, rfl | ⟨rfl, -⟩, -, -⟩
    · exact ih rest
    · exact List.forall_mem_cons.mpr ⟨service, ih rest⟩
    all_goals exact ih rest

/-- A POST is lost by the network or because the server cannot read it. -/
theorem run_lost (ran : run step s es = some t) (lost : p ∈ t.lost) : p ∈ s.lost ∨ .lose p ∈ es ∨ ¬ p.Readable := by
  induction es generalizing s with
  | nil =>
    obtain rfl := Option.some.inj ran
    exact .inl lost
  | cons e es ih =>
    obtain ⟨u, first, rest⟩ := Transition.run_cons.mp ran
    rcases ih rest with before | later | unreadable
    · rcases step_cases first with ⟨d, hub, -, -, rfl⟩ | ⟨a, java, -, -, -, rfl⟩ | ⟨q, -, -, -, rfl⟩ |
        ⟨q, how, -, rfl⟩
      · exact .inl before
      · exact .inl before
      · exact .inl before
      · rcases List.mem_append.mp before with old | new
        · exact .inl old
        · obtain rfl := List.mem_singleton.mp new
          rcases how with rfl | ⟨-, unreadable⟩
          · exact .inr (.inl List.mem_cons_self)
          · exact .inr (.inr unreadable)
    · exact .inr (.inl (List.mem_cons_of_mem _ later))
    · exact .inr (.inr unreadable)

theorem recorded_perm (es : List PipelineStep) :
    (((es.filterMap PipelineStep.ofHub).filterMap ApmStep.event).map ApmEvent.toJson ++
      ((es.filterMap PipelineStep.ofJava).filterMap Access.recorded).map TransactionMetric.toJson).Perm
      (es.filterMap PipelineStep.recorded) := by
  induction es with
  | nil => exact List.Perm.refl _
  | cons e es ih =>
    cases e with
    | hub d =>
      simp only [List.filterMap_cons, PipelineStep.ofHub, PipelineStep.ofJava, PipelineStep.recorded]
      cases d.event with
      | none => exact ih
      | some ev => exact ih.cons _
    | java a =>
      simp only [List.filterMap_cons, PipelineStep.ofHub, PipelineStep.ofJava, PipelineStep.recorded]
      cases a.recorded with
      | none => exact ih
      | some m => exact List.perm_middle.trans (ih.cons _)
    | arrive p => exact ih
    | lose p => exact ih

/-- The batches are smaller than the buffer. -/
theorem stored_short (ran : run step {} es = some s) (stored : p ∈ s.stored) : p.events.length ≤ maxBuffer := by
  have drained := Transition.run_invariant (fun _ _ _ drained taken => Gateway.step_drained drained taken)
    Gateway.init_drained (run_hub ran)
  have collected := run_collected init_collected (run_service ran) (run_java ran)
  have sent := (run_routed ran).posts.subset (List.mem_append_right _ stored)
  rcases List.mem_append.mp sent with hub | java
  · obtain ⟨batch, posted, rfl⟩ := List.mem_map.mp hub
    have size := (drained.sizes batch (drained.read ▸ List.mem_append_left _ posted)).2
    rw [Post.events, List.length_map]
    exact size.trans (by decide)
  · obtain ⟨batch, posted, rfl⟩ := List.mem_map.mp java
    rw [Post.events, List.length_map]
    exact (collected.sizes batch posted).trans (by decide)

theorem hub_events (batches : List (List ApmEvent)) :
    (batches.map Post.hub).flatMap Post.events = batches.flatten.map ApmEvent.toJson := by
  rw [List.flatMap_map, List.map_flatten]
  rfl

theorem java_events (batches : List (List TransactionMetric)) :
    (batches.map Post.java).flatMap Post.events = batches.flatten.map TransactionMetric.toJson := by
  rw [List.flatMap_map, List.map_flatten]
  rfl

theorem located (ran : run step {} es = some s) :
    (s.refused ++ s.waiting ++ (s.wire ++ s.lost ++ s.stored).flatMap Post.events).Perm
      (es.filterMap PipelineStep.recorded) := by
  have drained := Transition.run_invariant (fun _ _ _ drained taken => Gateway.step_drained drained taken)
    Gateway.init_drained (run_hub ran)
  have recorded := Gateway.run_recorded (run_hub ran)
  have hub : (s.hub.recorded.map Prod.fst) = (es.filterMap PipelineStep.ofHub).filterMap ApmStep.event := recorded
  have fromHub := drained.recorded.map ApmEvent.toJson
  have fromJava := ((run_collected init_collected (run_service ran) (run_java ran)).content).map TransactionMetric.toJson
  have posts := (run_routed ran).posts.flatMap_right Post.events
  rw [@List.flatMap_append _ _ (s.hub.posted.map Post.hub), hub_events, java_events] at posts
  rw [hub] at fromHub
  -- Both sides are counted: what the services recorded is what they hold or have posted.
  apply List.Perm.trans _ (recorded_perm es)
  classical
  rw [List.perm_iff_count] at fromHub fromJava posts ⊢
  intro x
  have hubs := fromHub x
  have javas := fromJava x
  have posted := posts x
  simp only [refused, waiting, List.map_append, List.count_append, List.nil_append] at hubs javas posted ⊢
  omega

/-- Batches that fit leave the latest events. -/
theorem ingests_short {α : Type*} {batches : List (List α)} (fits : ∀ batch ∈ batches, batch.length ≤ maxBuffer) :
    batches.foldl ingest [] = batches.flatten.rtake maxBuffer := by
  obtain ⟨held, length⟩ := @buffer_eq _ batches
  have last : (batches.getLast?.getD []).length ≤ min batches.flatten.length maxBuffer := by
    cases final : batches.getLast? with
    | none => exact Nat.zero_le _
    | some batch =>
      have member := List.mem_of_getLast? final
      exact Nat.le_min.mpr ⟨(List.sublist_flatten_of_mem member).length_le, fits batch member⟩
  -- The last batch is not longer than what the buffer may hold, so it does not count.
  have front : batches.flatten.length - max (batches.getLast?.getD []).length (min batches.flatten.length maxBuffer) =
      batches.flatten.length - maxBuffer := by omega
  rw [List.rtake, List.suffix_iff_eq_drop.mp held, length, front]

/-- Every metric that a service has recorded was refused by a full queue, waits in the service, is
under way, lost or stored, and nothing else is; the POSTs that are lost are those that the network
loses and those that the server cannot read. The server holds the latest of what it has stored, and
every request for the metrics is answered. -/
theorem metrics_conserved (ran : run step {} es = some s) :
    (s.refused ++ s.waiting ++ (s.wire ++ s.lost ++ s.stored).flatMap Post.events).Perm
        (es.filterMap PipelineStep.recorded) ∧
      (∀ p ∈ s.lost, .lose p ∈ es ∨ ¬ p.Readable) ∧
      s.buffer = s.shown.rtake maxBuffer ∧
      ∀ nesting (req : Request), req.getsMetrics → ∃ payload,
        (handleRequest nesting s.buffer req).2 = .metrics payload ∧ payload.totalIngested = s.buffer.length := by
  have routed := run_routed ran
  have shown : (s.stored.map Post.events).flatten = s.shown := rfl
  refine ⟨located ran, fun p lost => ?_, ?_, fun nesting req get => ?_⟩
  · rcases run_lost ran lost with before | why
    · exact absurd before List.not_mem_nil
    · exact why
  · rw [routed.buffer, ← shown]
    apply ingests_short
    intro batch member
    obtain ⟨p, stored, rfl⟩ := List.mem_map.mp member
    exact stored_short ran stored
  · have flat : ∀ e ∈ s.buffer, e.isNull = false ∧ e.depth = 1 := by
      intro e member
      rw [routed.buffer] at member
      obtain ⟨p, -, event⟩ := List.mem_flatMap.mp (buffer_eq.1.subset member)
      exact Post.events_flat event
    obtain ⟨payload, built⟩ := (@buildMetrics_ok _ (limitOf req.url)).mpr fun e member => (flat e member).1
    obtain ⟨total, recent⟩ := buildMetrics_recent built
    have fits : payload.depth ≤ nesting + 3 := by
      rw [depth_le, recent]
      intro e member
      have depth := (flat e (List.mem_of_mem_drop member)).2
      omega
    refine ⟨payload, ?_, total⟩
    rw [handleRequest_metrics get, built]
    exact if_pos fits

/-- A request to the hub and an order, whose metrics arrive in the other order. -/
def crossing : List PipelineStep :=
  [.hub (.record ⟨"", "0a", "/api/order", 12, 1000⟩), .java (.size ping), .java (.offer ping), .hub .receive, .hub .fire,
    .hub .tick, .hub .marshal, .java (.isEmpty 0), .java (.poll 0), .java (.poll 0), .arrive (.java [ping]),
    .arrive (.hub [⟨"0a", "go-hub", "/api/order", 12, 1000⟩])]

theorem metrics_conserved_crossing : ∃ s, run step {} crossing = some s ∧
    (s.refused ++ s.waiting ++ (s.wire ++ s.lost ++ s.stored).flatMap Post.events).Perm
        (crossing.filterMap PipelineStep.recorded) ∧
      (∀ p ∈ s.lost, .lose p ∈ crossing ∨ ¬ p.Readable) ∧
      s.buffer = s.shown.rtake maxBuffer ∧
      ∀ nesting (req : Request), req.getsMetrics → ∃ payload,
        (handleRequest nesting s.buffer req).2 = .metrics payload ∧ payload.totalIngested = s.buffer.length := by
  obtain ⟨s, ran⟩ := Option.isSome_iff_exists.mp (by decide +kernel : (run step {} crossing).isSome)
  exact ⟨s, ran, metrics_conserved ran⟩

end Pipeline

end PolyglotInfinity.Apm
