import PolyglotInfinity.Lib.Query

/-!
# Event streams

The reader of server-sent events, one character at a time: lines end with a line feed, a carriage
return or both, a field is what stands before the first colon, and an empty line dispatches the
message. What comes in one frame after another is read back frame by frame, however the text is
cut on its way.
-/

namespace EventStream

structure Message where
  event : List Char
  data : List Char
  deriving DecidableEq

structure Parser where
  /-- No character has come, so that a byte order mark may. -/
  first : Bool := true
  afterCR : Bool := false
  line : List Char := []
  data : List Char := []
  eventType : List Char := []
  lastEventId : List Char := []
  retry : Option (List Char) := none
  /-- What has been dispatched. -/
  messages : List Message := []

namespace Parser

def field (p : Parser) (name value : List Char) : Parser :=
  if name = "event".toList then { p with eventType := value }
  else if name = "data".toList then { p with data := p.data ++ value ++ ['\n'] }
  else if name = "id".toList then if Char.ofNat 0 ∈ value then p else { p with lastEventId := value }
  else if name = "retry".toList then if value.all Char.isDigit then { p with retry := some value } else p
  else p

def dispatch (p : Parser) : Parser :=
  if p.data = [] then { p with eventType := [] }
  else
    let event := if p.eventType = [] then "message".toList else p.eventType
    { p with data := [], eventType := [], messages := p.messages ++ [⟨event, p.data.dropLast⟩] }

def endLine (p : Parser) : Parser :=
  let q := { p with line := [] }
  match p.line with
  | [] => q.dispatch
  | ':' :: _ => q
  | _ =>
    match Query.splitFirst ':' p.line with
    | (name, none) => q.field name []
    | (name, some (' ' :: value)) => q.field name value
    | (name, some value) => q.field name value

def feed (p : Parser) (c : Char) : Parser :=
  let q := { p with first := false }
  if c = '\n' then if p.afterCR then { q with afterCR := false } else q.endLine
  else if c = '\r' then { q.endLine with afterCR := true }
  else if p.first ∧ c = Char.ofNat 0xFEFF then q
  else { q with line := p.line ++ [c], afterCR := false }

def read (p : Parser) (text : List Char) : Parser := text.foldl feed p

/-- Between two frames. -/
structure Fresh (p : Parser) : Prop where
  afterCR : p.afterCR = false
  line : p.line = []
  data : p.data = []
  eventType : p.eventType = []

variable {p : Parser} {text cs : List Char}

theorem read_append (p : Parser) (text cs : List Char) : p.read (text ++ cs) = (p.read text).read cs :=
  List.foldl_append

theorem field_messages (p : Parser) (name value : List Char) : (p.field name value).messages = p.messages := by
  unfold field
  repeat' split
  all_goals rfl

theorem dispatch_messages (p : Parser) : p.messages <+: p.dispatch.messages := by
  unfold dispatch
  split
  · exact List.prefix_rfl
  · exact List.prefix_append _ _

theorem endLine_messages (p : Parser) : p.messages <+: p.endLine.messages := by
  unfold endLine
  dsimp only
  split
  · exact dispatch_messages { p with line := [] }
  · exact List.prefix_rfl
  · split
    all_goals
      simp only [field_messages, List.prefix_rfl]

theorem feed_messages (p : Parser) (c : Char) : p.messages <+: (p.feed c).messages := by
  unfold feed
  dsimp only
  split
  · split
    · exact List.prefix_rfl
    · exact endLine_messages { p with first := false }
  · split
    · exact endLine_messages { p with first := false }
    · split <;> exact List.prefix_rfl

/-- What has been dispatched stays so. -/
theorem read_messages (p : Parser) (text : List Char) : p.messages <+: (p.read text).messages := by
  induction text generalizing p with
  | nil => exact List.prefix_rfl
  | cons c text ih => exact (feed_messages p c).trans (ih (p.feed c))

/-- Text without line ends becomes part of the line. -/
theorem read_plain (begun : p.first = false) (plain : ∀ c ∈ text, c ≠ '\n' ∧ c ≠ '\r') :
    p.read text = { p with line := p.line ++ text, afterCR := if text = [] then p.afterCR else false } := by
  induction text generalizing p with
  | nil => simp [read]
  | cons c text ih =>
    obtain ⟨here, later⟩ := List.forall_mem_cons.mp plain
    have fed : p.feed c = { p with line := p.line ++ [c], afterCR := false } := by
      simp [feed, here, begun]
    show (p.feed c).read text = _
    rw [fed, @ih { p with line := p.line ++ [c], afterCR := false } begun later]
    simp

end Parser

/-! ### Frames -/

/-- A message of one line. -/
def frame (data : List Char) : List Char := "data: ".toList ++ data ++ ['\n', '\n']

theorem frame_eq (data : List Char) : frame data = "data: ".toList ++ data ++ ['\n'] ++ ['\n'] :=
  (List.append_assoc ("data: ".toList ++ data) ['\n'] ['\n']).symm

def message (data : List Char) : Message := ⟨"message".toList, data⟩

variable {p : Parser} {data text : List Char} {items : List (List Char)}

def OneLine (data : List Char) : Prop := ∀ c ∈ data, c ≠ '\n' ∧ c ≠ '\r'

theorem plain_append (oneLine : OneLine data) : ∀ c ∈ "data: ".toList ++ data, c ≠ '\n' ∧ c ≠ '\r' := by
  intro c member
  rcases List.mem_append.mp member with head | tail
  · have plain : ∀ c ∈ "data: ".toList, c ≠ '\n' ∧ c ≠ '\r' := by simp
    exact plain c head
  · exact oneLine c tail

theorem Parser.Fresh.eq (fresh : p.Fresh) : ∃ first lastEventId retry messages,
    p = { first, lastEventId, retry, messages } := by
  obtain ⟨first, afterCR, line, data, eventType, lastEventId, retry, messages⟩ := p
  obtain ⟨rfl, rfl, rfl, rfl⟩ : afterCR = false ∧ line = [] ∧ data = [] ∧ eventType = [] :=
    ⟨fresh.afterCR, fresh.line, fresh.data, fresh.eventType⟩
  exact ⟨_, _, _, _, rfl⟩

theorem feed_first (fresh : p.Fresh) : p.feed 'd' = { p with first := false, line := ['d'] } := by
  obtain ⟨first, lastEventId, retry, messages, rfl⟩ := fresh.eq
  have mark : ¬ (first = true ∧ 'd' = Char.ofNat 0xFEFF) := fun both => absurd both.2 (by decide)
  rw [Parser.feed, if_neg (by decide), if_neg (by decide), if_neg mark]
  rfl

/-- The first line of a frame, up to the line feed behind it. -/
theorem read_line (fresh : p.Fresh) (oneLine : OneLine data) :
    p.read ("data: ".toList ++ data) = { p with first := false, line := "data: ".toList ++ data } := by
  have rest : ∀ c ∈ "ata: ".toList ++ data, c ≠ '\n' ∧ c ≠ '\r' := fun c member =>
    plain_append oneLine c (List.mem_cons_of_mem _ member)
  show (p.feed 'd').read ("ata: ".toList ++ data) = _
  rw [feed_first fresh, @Parser.read_plain { p with first := false, line := ['d'] } _ rfl rest, if_neg (by simp)]
  show ({ p with first := false, afterCR := false, line := "data: ".toList ++ data } : Parser) = _
  rw [← fresh.afterCR]

/-- The line feed behind it. -/
theorem feed_data (fresh : p.Fresh) :
    Parser.feed { p with first := false, line := "data: ".toList ++ data } '\n' =
      { p with first := false, data := data ++ ['\n'] } := by
  obtain ⟨first, lastEventId, retry, messages, rfl⟩ := fresh.eq
  rfl

/-- The empty line at the end. -/
theorem feed_empty (fresh : p.Fresh) : Parser.feed { p with first := false, data := data ++ ['\n'] } '\n' =
    { p with first := false, messages := p.messages ++ [message data] } := by
  obtain ⟨first, lastEventId, retry, messages, rfl⟩ := fresh.eq
  show Parser.dispatch { first := false, data := data ++ ['\n'], lastEventId, retry, messages } = _
  rw [Parser.dispatch, if_neg (by simp), List.dropLast_concat]
  rfl

theorem read_frame (fresh : p.Fresh) (oneLine : OneLine data) :
    p.read (frame data) = { p with first := false, messages := p.messages ++ [message data] } := by
  rw [frame_eq, Parser.read_append, Parser.read_append, read_line fresh oneLine]
  show (Parser.feed (Parser.feed _ '\n') '\n') = _
  rw [feed_data fresh, feed_empty fresh]

theorem Parser.Fresh.frame (fresh : p.Fresh) (oneLine : OneLine data) : (p.read (frame data)).Fresh := by
  rw [read_frame fresh oneLine]
  exact ⟨fresh.afterCR, fresh.line, fresh.data, fresh.eventType⟩

/-- A frame that is not complete dispatches nothing. -/
theorem read_part (fresh : p.Fresh) (oneLine : OneLine data) (part : text <+: frame data)
    (short : text.length < (frame data).length) : (p.read text).messages = p.messages := by
  rw [frame_eq] at part short
  rcases List.prefix_concat_iff.mp part with rfl | part
  · exact absurd short (Nat.lt_irrefl _)
  rcases List.prefix_concat_iff.mp part with rfl | part
  · rw [Parser.read_append, read_line fresh oneLine]
    show (Parser.feed _ '\n').messages = p.messages
    rw [feed_data fresh]
  · match text, part with
    | [], _ => rfl
    | c :: text, part =>
      obtain ⟨rfl, later⟩ := List.cons_prefix_cons.mp part
      have plain : ∀ c ∈ text, c ≠ '\n' ∧ c ≠ '\r' := fun c member =>
        plain_append oneLine c (List.mem_cons_of_mem _ (later.subset member))
      show ((p.feed 'd').read text).messages = p.messages
      rw [feed_first fresh, @Parser.read_plain { p with first := false, line := ['d'] } _ rfl plain]

/-- What is dispatched of a text is what its complete frames hold. -/
theorem read_frames (fresh : p.Fresh) (oneLine : ∀ data ∈ items, OneLine data)
    (part : text <+: (items.map frame).flatten) :
    ∃ n, (p.read text).messages = p.messages ++ (items.take n).map message ∧
      ((items.take n).map frame).flatten <+: text ∧
      (n < items.length → text.length < ((items.take (n + 1)).map frame).flatten.length) := by
  induction items generalizing p text with
  | nil =>
    obtain rfl := List.prefix_nil.mp part
    exact ⟨0, (List.append_nil _).symm, List.nil_prefix, nofun⟩
  | cons data items ih =>
    obtain ⟨here, later⟩ := List.forall_mem_cons.mp oneLine
    rw [List.map_cons, List.flatten_cons] at part
    rcases Nat.lt_or_ge text.length (frame data).length with short | long
    · have inFrame := List.prefix_of_prefix_length_le part (List.prefix_append _ _) (Nat.le_of_lt short)
      refine ⟨0, ?_, List.nil_prefix, fun _ => ?_⟩
      · rw [read_part fresh here inFrame short, List.take_zero, List.map_nil, List.append_nil]
      · simpa using short
    · obtain ⟨rest, rfl⟩ := List.prefix_of_prefix_length_le (List.prefix_append _ _) part long
      have restPart := (List.prefix_append_right_inj _).mp part
      obtain ⟨n, messages, complete, next⟩ := ih (fresh.frame here) later restPart
      refine ⟨n + 1, ?_, ?_, fun inside => ?_⟩
      · rw [Parser.read_append, messages, read_frame fresh here]
        simp
      · rw [List.take_succ_cons, List.map_cons, List.flatten_cons]
        exact (List.prefix_append_right_inj _).mpr complete
      · have following := next (Nat.lt_of_succ_lt_succ inside)
        rw [List.take_succ_cons, List.map_cons, List.flatten_cons, List.length_append, List.length_append]
        omega

end EventStream
