import PolyglotInfinity.Gateway.Aggregate

/-!
# The live health check

The status panel of the portal on the event stream of the gateway. The stream of a connection
comes in pieces of any length, and the panel may close it and open another one at any time.
-/

namespace PolyglotInfinity.PortalSvelte

open EventStream (Message Parser OneLine)
open Gateway (Aggregate Probe buildAggregate)
open Transition (run)

structure System where
  sseConnected : Bool := false
  /-- The reader of the event source. -/
  sseSource : Option Parser := none
  aggregateData : Option Json := none
  /-- The text of the connection that has not arrived yet. -/
  pending : List Char := []
  /-- The text that has arrived. Ghost, as the next two. -/
  delivered : List Char := []
  sent : List Aggregate := []
  /-- What the server has built for any connection. -/
  built : List Aggregate := []

inductive Event where
  | toggle
  /-- `sendAggregate`, at the beginning of a connection and at each tick. -/
  | send (probes : ℕ → Probe) (ends : List ℕ) (timestamp : String)
  | deliver (n : ℕ)
  | fail

/-- The handler of a message, where a failed `JSON.parse` is ignored. -/
def onmessage (aggregateData : Option Json) (m : Message) : Option Json :=
  match Json.parse (String.ofList m.data) with
  | some v => some v
  | none => aggregateData

namespace System

def close (s : System) : System := { s with sseConnected := false, sseSource := none }

def toggleSSE (s : System) : System :=
  if s.sseConnected then s.close
  else { s with sseConnected := true, sseSource := some {}, pending := [], delivered := [], sent := [] }

def send (s : System) (a : Aggregate) : System :=
  { s with pending := s.pending ++ a.frame, sent := s.sent ++ [a], built := s.built ++ [a] }

/-- The source dispatches to the handler what has no event type of its own. -/
def deliver (s : System) (p : Parser) (n : ℕ) : System :=
  let q := p.read (s.pending.take n)
  let messages := (q.messages.drop p.messages.length).filter (·.event = "message".toList)
  { s with
    sseSource := some q
    aggregateData := messages.foldl onmessage s.aggregateData
    pending := s.pending.drop n
    delivered := s.delivered ++ s.pending.take n }

def step (s : System) : Event → Option System
  | .toggle => some s.toggleSSE
  | .send probes ends timestamp =>
    if s.sseConnected then (buildAggregate probes ends timestamp).map s.send else none
  | .deliver n => s.sseSource.map fun p => s.deliver p n
  | .fail => if s.sseConnected then some s.close else none

end System

/-! ### The invariant -/

def shown (a : Aggregate) : Message := EventStream.message a.text

/-- The source has read what has arrived of the frames, and the panel shows the last one that is complete. -/
structure Reading (s : System) (p : Parser) : Prop where
  text : s.delivered ++ s.pending = (s.sent.map Aggregate.frame).flatten
  reader : p = Parser.read {} s.delivered
  latest : ∀ m, p.messages.getLast? = some m → ∃ a, m = shown a ∧ s.aggregateData = some a.json

structure Streaming (s : System) : Prop where
  connected : s.sseConnected = s.sseSource.isSome
  shows : ∀ v, s.aggregateData = some v → ∃ a ∈ s.built, v = a.json
  sent : s.sent <:+ s.built
  reading : ∀ p, s.sseSource = some p → Reading s p

variable {s t : System} {p : Parser} {e : Event}

theorem init_streaming : Streaming {} := ⟨rfl, nofun, List.suffix_rfl, nofun⟩

theorem fresh_empty : Parser.Fresh {} := ⟨rfl, rfl, rfl, rfl⟩

theorem frame_eq (a : Aggregate) : a.frame = EventStream.frame a.text := rfl

theorem frames_eq (sent : List Aggregate) :
    (sent.map Aggregate.frame).flatten = ((sent.map Aggregate.text).map EventStream.frame).flatten := by
  rw [List.map_map]
  rfl

/-- What has arrived of some frames are the messages of the complete ones. -/
theorem read_sent {delivered : List Char} {sent : List Aggregate}
    (part : delivered <+: (sent.map Aggregate.frame).flatten) :
    ∃ n, (Parser.read {} delivered).messages = (sent.take n).map shown ∧
      ((sent.take n).map Aggregate.frame).flatten <+: delivered ∧
      (n < sent.length → delivered.length < ((sent.take (n + 1)).map Aggregate.frame).flatten.length) := by
  have oneLine : ∀ data ∈ sent.map Aggregate.text, OneLine data := by
    intro data member
    obtain ⟨a, -, rfl⟩ := List.mem_map.mp member
    exact Gateway.text_oneLine a
  rw [frames_eq] at part
  obtain ⟨n, messages, complete, next⟩ := EventStream.read_frames fresh_empty oneLine part
  refine ⟨n, ?_, ?_, ?_⟩
  · rw [messages, ← List.map_take, List.map_map]
    rfl
  · rwa [frames_eq, List.map_take]
  · rw [frames_eq, List.map_take]
    simpa using next

theorem onmessage_shown (aggregateData : Option Json) (a : Aggregate) :
    onmessage aggregateData (shown a) = some a.json := by
  have data : (shown a).data = a.text := rfl
  rw [onmessage, data, Gateway.parse_text]

/-- The messages of aggregates leave the last one. -/
theorem foldl_onmessage (aggregateData : Option Json) (as : List Aggregate) :
    (as.map shown).foldl onmessage aggregateData = (as.getLast?.map Aggregate.json).or aggregateData := by
  induction as using List.reverseRecOn with
  | nil => rfl
  | append_singleton as a ih =>
    rw [List.map_append, List.foldl_append, ih]
    simp [onmessage_shown]

theorem Reading.deliver (reading : Reading s p) (n : ℕ) : Reading (s.deliver p n) (p.read (s.pending.take n)) ∧
    ∀ v, (s.deliver p n).aggregateData = some v → s.aggregateData = some v ∨ ∃ a ∈ s.sent, v = a.json := by
  obtain ⟨text, reader, latest⟩ := reading
  have arrived : s.delivered ++ s.pending.take n <+: (s.sent.map Aggregate.frame).flatten := by
    refine ⟨s.pending.drop n, ?_⟩
    rw [List.append_assoc, List.take_append_drop, text]
  have read : p.read (s.pending.take n) = Parser.read {} (s.delivered ++ s.pending.take n) := by
    rw [reader, Parser.read_append]
  obtain ⟨l, new, -, -⟩ := read_sent arrived
  rw [← read] at new
  -- What the source dispatches are the aggregates that it had not read before.
  have fresh : (p.read (s.pending.take n)).messages.drop p.messages.length =
      ((s.sent.take l).drop p.messages.length).map shown := by rw [new, List.map_drop]
  have typed : ((p.read (s.pending.take n)).messages.drop p.messages.length).filter (·.event = "message".toList) =
      ((s.sent.take l).drop p.messages.length).map shown := by
    rw [fresh, List.filter_eq_self]
    intro m member
    obtain ⟨a, -, rfl⟩ := List.mem_map.mp member
    exact decide_eq_true rfl
  have data : (s.deliver p n).aggregateData =
      (((s.sent.take l).drop p.messages.length).getLast?.map Aggregate.json).or s.aggregateData := by
    show List.foldl onmessage s.aggregateData _ = _
    rw [typed, foldl_onmessage]
  have kept := Parser.read_messages p (s.pending.take n)
  refine ⟨⟨?_, read, fun m last => ?_⟩, fun v shows => ?_⟩
  · show s.delivered ++ s.pending.take n ++ s.pending.drop n = (s.sent.map Aggregate.frame).flatten
    rw [List.append_assoc, List.take_append_drop, text]
  · rw [data]
    cases dispatched : ((s.sent.take l).drop p.messages.length).getLast? with
    | none =>
      have none : (s.sent.take l).drop p.messages.length = [] := List.getLast?_eq_none_iff.mp dispatched
      rw [none, List.map_nil, List.drop_eq_nil_iff] at fresh
      have same := kept.eq_of_length_le fresh
      rw [← same] at last
      exact latest m last
    | some a =>
      refine ⟨a, ?_, rfl⟩
      have whole := List.prefix_iff_eq_append.mp kept
      rw [fresh] at whole
      rw [← whole, List.getLast?_append, List.getLast?_map, dispatched] at last
      exact (Option.some.inj last).symm
  · rw [data] at shows
    cases dispatched : ((s.sent.take l).drop p.messages.length).getLast? with
    | none =>
      rw [dispatched] at shows
      exact .inl shows
    | some a =>
      rw [dispatched] at shows
      have member := List.mem_of_mem_take (List.mem_of_mem_drop (List.mem_of_getLast? dispatched))
      exact .inr ⟨a, member, (Option.some.inj shows).symm⟩

theorem step_streaming (streaming : Streaming s) (taken : s.step e = some t) : Streaming t := by
  obtain ⟨connected, shows, sent, reading⟩ := streaming
  cases e with
  | toggle =>
    obtain rfl := Option.some.inj taken
    unfold System.toggleSSE
    split
    · exact ⟨rfl, shows, sent, nofun⟩
    · refine ⟨rfl, shows, List.nil_suffix, fun p source => ?_⟩
      obtain rfl := Option.some.inj source
      exact ⟨rfl, rfl, nofun⟩
  | send probes ends timestamp =>
    simp only [System.step] at taken
    split at taken
    · obtain ⟨a, -, rfl⟩ := Option.map_eq_some_iff.mp taken
      refine ⟨connected, fun v shown => ?_, ?_, fun p source => ?_⟩
      · obtain ⟨b, member, json⟩ := shows v shown
        exact ⟨b, List.mem_append_left _ member, json⟩
      · obtain ⟨before, split⟩ := sent
        exact ⟨before, by rw [System.send, ← split, List.append_assoc]⟩
      · obtain ⟨text, reader, latest⟩ := reading p source
        refine ⟨?_, reader, latest⟩
        show s.delivered ++ (s.pending ++ a.frame) = ((s.sent ++ [a]).map Aggregate.frame).flatten
        rw [← List.append_assoc, text, List.map_append, List.flatten_append]
        simp
    · contradiction
  | deliver n =>
    obtain ⟨p, source, rfl⟩ := Option.map_eq_some_iff.mp taken
    obtain ⟨reads, shown⟩ := (reading p source).deliver n
    refine ⟨?_, fun v there => ?_, sent, fun q source' => ?_⟩
    · show s.sseConnected = true
      rw [connected, source]
      rfl
    · rcases shown v there with old | ⟨a, member, json⟩
      · exact shows v old
      · exact ⟨a, sent.subset member, json⟩
    · obtain rfl := Option.some.inj source'
      exact reads
  | fail =>
    simp only [System.step] at taken
    split at taken
    · obtain rfl := Option.some.inj taken
      exact ⟨rfl, shows, sent, nofun⟩
    · contradiction

/-! ### Runs -/

def Event.built : Event → Option Aggregate
  | .send probes ends timestamp => buildAggregate probes ends timestamp
  | .toggle | .deliver _ | .fail => none

variable {es : List Event}

theorem step_built (taken : s.step e = some t) : t.built = s.built ++ e.built.toList := by
  cases e with
  | toggle =>
    obtain rfl := Option.some.inj taken
    unfold System.toggleSSE
    split <;> exact (List.append_nil _).symm
  | send probes ends timestamp =>
    simp only [System.step] at taken
    split at taken
    · obtain ⟨a, built, rfl⟩ := Option.map_eq_some_iff.mp taken
      rw [Event.built, built]
      rfl
    · contradiction
  | deliver n =>
    obtain ⟨p, -, rfl⟩ := Option.map_eq_some_iff.mp taken
    exact (List.append_nil _).symm
  | fail =>
    simp only [System.step] at taken
    split at taken
    · obtain rfl := Option.some.inj taken
      exact (List.append_nil _).symm
    · contradiction

theorem run_built (ran : run System.step s es = some t) : t.built = s.built ++ es.filterMap Event.built := by
  induction es generalizing s with
  | nil =>
    obtain rfl := Option.some.inj ran
    exact (List.append_nil _).symm
  | cons e es ih =>
    obtain ⟨u, first, rest⟩ := Transition.run_cons.mp ran
    rw [ih rest, step_built first, List.append_assoc, List.filterMap_cons]
    cases e.built <;> rfl

/-- One of the sends has built the aggregate, with the outcome of its own probe for each service. -/
def Probed (es : List Event) (a : Aggregate) : Prop := ∃ probes ends timestamp,
  Event.send probes ends timestamp ∈ es ∧ buildAggregate probes ends timestamp = some a ∧ a.Whole probes

theorem built_probed {a : Aggregate} (member : a ∈ es.filterMap Event.built) : Probed es a := by
  obtain ⟨e, sent, made⟩ := List.mem_filterMap.mp member
  cases e with
  | send probes ends timestamp => exact ⟨probes, ends, timestamp, sent, made, Gateway.buildAggregate_whole made⟩
  | toggle | deliver | fail => contradiction

/-- However the streams are cut, and whenever connections begin and end: what the panel shows is an
aggregate that the server has built, in which each service has the outcome of its own probe; the source
has got the aggregates whose frames have arrived, in their order, and the panel shows the last. -/
theorem panel_shows_latest (ran : run System.step {} es = some s) :
    (∀ v, s.aggregateData = some v → ∃ a, Probed es a ∧ v = a.json) ∧ s.sent <:+ es.filterMap Event.built ∧
      (∀ a ∈ s.sent, Probed es a) ∧
      ∀ p, s.sseSource = some p → ∃ n, p.messages = (s.sent.take n).map shown ∧
        ((s.sent.take n).map Aggregate.frame).flatten <+: s.delivered ∧
        (n < s.sent.length → s.delivered.length < ((s.sent.take (n + 1)).map Aggregate.frame).flatten.length) ∧
        ∀ a, (s.sent.take n).getLast? = some a → s.aggregateData = some a.json := by
  have streaming := Transition.run_invariant (fun _ _ _ streaming taken => step_streaming streaming taken)
    init_streaming ran
  have built : s.built = es.filterMap Event.built := run_built ran
  have sent : s.sent <:+ es.filterMap Event.built := built ▸ streaming.sent
  refine ⟨fun v shows => ?_, sent, fun a member => built_probed (sent.subset member), ?_⟩
  · obtain ⟨a, member, json⟩ := streaming.shows v shows
    exact ⟨a, built_probed (built ▸ member), json⟩
  · intro p source
    obtain ⟨text, reader, latest⟩ := streaming.reading p source
    obtain ⟨n, messages, complete, next⟩ := read_sent ⟨s.pending, text⟩
    rw [← reader] at messages
    refine ⟨n, messages, complete, next, fun a last => ?_⟩
    have lastMessage : p.messages.getLast? = some (shown a) := by rw [messages, List.getLast?_map, last, Option.map_some]
    obtain ⟨b, same, data⟩ := latest _ lastMessage
    have text : a.text = b.text := congrArg Message.data same
    have json := Gateway.parse_text a
    rw [text, Gateway.parse_text b] at json
    rw [data, json]

/-- One aggregate, whose services answer in the reverse order and every third one not, and the beginning
of a second one. -/
def twoTicks : List Event :=
  [.toggle, .send (fun i => ⟨.response (if i % 3 = 2 then 503 else 200), i⟩) (List.range 22).reverse
      "2024-01-01T00:00:00Z", .deliver 30,
    .send (fun _ => ⟨.error "refused", 1⟩) (List.range 22) "2024-01-01T00:00:10Z", .deliver 2000, .deliver 20]

theorem panel_shows_latest_twoTicks : ∃ s, run System.step {} twoTicks = some s ∧ s.sent.length = 2 ∧
    (∀ v, s.aggregateData = some v → ∃ a, Probed twoTicks a ∧ v = a.json) ∧
      s.sent <:+ twoTicks.filterMap Event.built ∧ (∀ a ∈ s.sent, Probed twoTicks a) ∧
      ∀ p, s.sseSource = some p → ∃ n, p.messages = (s.sent.take n).map shown ∧
        ((s.sent.take n).map Aggregate.frame).flatten <+: s.delivered ∧
        (n < s.sent.length → s.delivered.length < ((s.sent.take (n + 1)).map Aggregate.frame).flatten.length) ∧
        ∀ a, (s.sent.take n).getLast? = some a → s.aggregateData = some a.json := by
  have sent : (run System.step {} twoTicks).map (·.sent.length) = some 2 := by decide +kernel
  obtain ⟨s, ran, both⟩ := Option.map_eq_some_iff.mp sent
  exact ⟨s, ran, both, panel_shows_latest ran⟩

end PolyglotInfinity.PortalSvelte
