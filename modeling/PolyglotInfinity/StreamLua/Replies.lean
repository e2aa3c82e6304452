import PolyglotInfinity.StreamLua.Server

/-!
# Replies of the stream server

Which requests are answered, and that an answer is framed by its length.
-/

namespace PolyglotInfinity.StreamLua

variable {F : Type} [Field F] [LinearOrder F]

/-! ### Framing -/

/-- Neither of the characters that end a line. -/
def OneLine (line : String) : Prop := ∀ c ∈ line.toList, c ≠ '\r' ∧ c ≠ '\n'

instance (line : String) : Decidable (OneLine line) :=
  List.decidableBAll (fun c => c ≠ '\r' ∧ c ≠ '\n') line.toList

/-- The lines of the head, a blank one, and the body, whose length in bytes the head announces. -/
def Framed (text : String) : Prop :=
  ∃ lines body, text = "\r\n".intercalate lines ++ "\r\n\r\n" ++ body ∧ (∀ line ∈ lines, OneLine line) ∧
    ("Content-Length: " ++ toString body.utf8ByteSize) ∈ lines

theorem oneLine_append {a b : String} (left : OneLine a) (right : OneLine b) : OneLine (a ++ b) := by
  intro c member
  rw [String.toList_append] at member
  rcases List.mem_append.mp member with before | behind
  · exact left c before
  · exact right c behind

theorem oneLine_nat (n : ℕ) : OneLine (toString n) := by
  intro c member
  have listed : c ∈ (String.ofList (Nat.toDigits 10 n)).toList := member
  rw [String.toList_ofList] at listed
  have digit : c.isDigit = true := Nat.isDigit_of_mem_toDigits (by decide) (by decide) listed
  refine ⟨?_, ?_⟩
  · rintro rfl
    exact absurd digit (by decide)
  · rintro rfl
    exact absurd digit (by decide)

theorem sendJson_framed (body : String) {status : String} (plain : OneLine status) : Framed (sendJson body status) := by
  refine ⟨["HTTP/1.1 " ++ status, "Content-Type: application/json", "Content-Length: " ++ toString body.utf8ByteSize,
    "Access-Control-Allow-Origin: *", "Connection: close"], body, ?_, ?_, ?_⟩
  · show "HTTP/1.1 " ++ status ++ "\r\n" ++ ("Content-Type: application/json" ++ "\r\n") ++ "Content-Length: " ++
      toString body.utf8ByteSize ++ "\r\n" ++ ("Access-Control-Allow-Origin: *" ++ "\r\n") ++
      ("Connection: close" ++ "\r\n\r\n") ++ body = _
    simp only [String.intercalate_cons_cons, String.intercalate_singleton, String.append_assoc]
  · have fixed : OneLine "HTTP/1.1 " ∧ OneLine "Content-Type: application/json" ∧ OneLine "Content-Length: " ∧
        OneLine "Access-Control-Allow-Origin: *" ∧ OneLine "Connection: close" := by
      decide
    obtain ⟨version, type, length, origin, connection⟩ := fixed
    simp only [List.forall_mem_cons]
    exact ⟨oneLine_append version plain, type, oneLine_append length (oneLine_nat _), origin, connection,
      fun _ none => absurd none List.not_mem_nil⟩
  · exact List.mem_cons_of_mem _ (List.mem_cons_of_mem _ List.mem_cons_self)

/-! ### Integers to write -/

/-- Strictly between two integers, and none. -/
def Number.Fraction (lo hi : ℤ) (n : Number) : Prop := ∃ q : ℚ, n = .float (.fin q) ∧ lo < q ∧ q < hi ∧ q.den ≠ 1

theorem formatInt_int (arg : ℕ) (i : Int64) : formatInt arg (.int i) = .ok (toString i.toInt) := rfl

theorem formatInt_float (arg : ℕ) {q : ℚ} (low : -2 ^ 63 ≤ q) (high : q < 2 ^ 63) :
    (∃ text, formatInt arg (.float (.fin q)) = .ok text) ↔ q.den = 1 := by
  by_cases whole : q.den = 1
  · have num : (q.num : ℚ) = q := Rat.coe_int_num_of_den_eq_one whole
    have num_low : -2 ^ 63 ≤ q.num := by
      rw [← num] at low
      exact_mod_cast low
    have num_high : q.num < 2 ^ 63 := by
      rw [← num] at high
      exact_mod_cast high
    exact iff_of_true ⟨toString q.num, if_pos ⟨whole, num_low, num_high⟩⟩ whole
  · refine iff_of_false ?_ whole
    rintro ⟨text, written⟩
    rw [formatInt, if_neg fun fits => whole fits.1] at written
    cases written

theorem mathMax_int (i j : Int64) : ∃ k, mathMax (.int i) (.int j) = .int k := by
  unfold mathMax
  split
  · exact ⟨j, rfl⟩
  · exact ⟨i, rfl⟩

theorem mathMin_cases (n : Number) (hi : Int64) :
    (.fin hi.toInt < n.value ∧ mathMin n (.int hi) = .int hi) ∨
      (¬ .fin hi.toInt < n.value ∧ mathMin n (.int hi) = n) := by
  unfold mathMin
  split
  · next above => exact .inl ⟨above, rfl⟩
  · next within => exact .inr ⟨within, rfl⟩

/-- A float between the bounds is kept, any other number becomes an integer. -/
theorem clamp_cases (lo hi : Int64) (n : Number) :
    ((∃ i, mathMax (.int lo) (mathMin n (.int hi)) = .int i) ∧
      ∀ q, n = .float (.fin q) → (lo.toInt : ℚ) < q → (hi.toInt : ℚ) < q) ∨
    ∃ q : ℚ, n = .float (.fin q) ∧ lo.toInt < q ∧ q ≤ hi.toInt ∧
      mathMax (.int lo) (mathMin n (.int hi)) = .float (.fin q) := by
  rcases mathMin_cases n hi with ⟨above, cut⟩ | ⟨within, kept⟩
  · rw [cut]
    refine .inl ⟨mathMax_int lo hi, ?_⟩
    rintro q rfl -
    exact Extended.fin_lt_fin.mp above
  · rw [kept]
    cases n with
    | int i => exact .inl ⟨mathMax_int lo i, fun q float => by cases float⟩
    | float x =>
      by_cases past : .fin lo.toInt < x
      · have result : mathMax (.int lo) (.float x) = .float x := if_pos past
        cases x with
        | fin q => exact .inr ⟨q, rfl, Extended.fin_lt_fin.mp past, not_lt.mp fun high => within high, result⟩
        | posInf => exact absurd trivial within
        | negInf => exact past.elim
        | nan => exact past.elim
      · have result : mathMax (.int lo) (.float x) = .int lo := if_neg past
        refine .inl ⟨⟨lo, result⟩, ?_⟩
        rintro q float low
        cases float
        exact absurd low past

theorem formatInt_iff (arg : ℕ) (lo hi : Int64) (n : Number) :
    (∃ text, formatInt arg (mathMax (.int lo) (mathMin n (.int hi))) = .ok text) ↔ ¬ n.Fraction lo.toInt hi.toInt := by
  rcases clamp_cases lo hi n with ⟨⟨i, int⟩, outside⟩ | ⟨q, rfl, low, high, kept⟩
  · rw [int]
    refine iff_of_true ⟨_, formatInt_int arg i⟩ ?_
    rintro ⟨q, float, low, high, -⟩
    exact high.not_gt (outside q float low)
  · have lo_ge : (-2 ^ 63 : ℚ) ≤ lo.toInt := by exact_mod_cast lo.le_toInt
    have hi_lt : (hi.toInt : ℚ) < 2 ^ 63 := by exact_mod_cast hi.toInt_lt
    rw [kept, formatInt_float arg (lo_ge.trans low.le) (high.trans_lt hi_lt)]
    constructor
    · rintro whole ⟨q', same, -, -, fraction⟩
      cases same
      exact fraction whole
    · intro none
      by_contra fraction
      refine none ⟨q, rfl, low, lt_of_le_of_ne high ?_, fraction⟩
      rintro rfl
      exact fraction (Rat.den_intCast _)

theorem rounds_le (n : Number) (limit : Int64) (nonneg : 0 ≤ limit.toInt) :
    ((mathMin n (.int limit)).rounds : ℤ) ≤ limit.toInt := by
  have limit_rounds : ((Number.int limit).rounds : ℤ) = limit.toInt := Int.toNat_of_nonneg nonneg
  rcases mathMin_cases n limit with ⟨-, cut⟩ | ⟨within, kept⟩
  · rw [cut, limit_rounds]
  · rw [kept]
    cases n with
    | int i =>
      have le : i.toInt ≤ limit.toInt := by
        by_contra above
        exact within (Extended.fin_lt_fin.mpr (Int.cast_lt.mpr (not_le.mp above)))
      show (i.toInt.toNat : ℤ) ≤ _
      omega
    | float x =>
      cases x with
      | fin q =>
        have le : q ≤ limit.toInt := not_lt.mp fun above => within (Extended.fin_lt_fin.mpr above)
        have floor_le : ⌊q⌋ ≤ limit.toInt := Int.cast_le.mp ((Int.floor_le q).trans le)
        show ((min ⌊q⌋.toNat (2 ^ 63 - 1) : ℕ) : ℤ) ≤ _
        omega
      | posInf => exact absurd trivial within
      | negInf => exact nonneg
      | nan => exact nonneg

/-! ### The scheduler -/

theorem mapM_ok {α β ε : Type} {f : α → Except ε β} {xs : List α} (each : ∀ x ∈ xs, ∃ y, f x = .ok y) :
    ∃ ys, xs.mapM f = .ok ys := by
  induction xs with
  | nil => exact ⟨[], rfl⟩
  | cons x xs ih =>
    obtain ⟨y, here⟩ := each x List.mem_cons_self
    obtain ⟨ys, behind⟩ := ih fun x' later => each x' (List.mem_cons_of_mem _ later)
    refine ⟨y :: ys, ?_⟩
    rw [List.mapM_cons, here, behind]
    rfl

omit [LinearOrder F] in
theorem makeFeeds_ok {n : ℕ} (le : n ≤ 6) : ∃ feeds : List (Feed F), makeFeeds n = .ok feeds := by
  apply mapM_ok
  intro i member
  have i_lt : i < (configs : List (Feed F)).length := (List.mem_range.mp member).trans_le le
  refine ⟨configs[i], ?_⟩
  rw [List.getElem?_eq_getElem i_lt]

theorem runScheduler_ok (lib : Libm F) (fixed2 : F → String) (nFeeds nSteps : Number) :
    ∃ results, runScheduler lib fixed2 nFeeds nSteps = .ok results := by
  have le : ((mathMin nFeeds (.int 6)).rounds : ℤ) ≤ 6 := rounds_le nFeeds 6 (by decide)
  obtain ⟨feeds, made⟩ := makeFeeds_ok (F := F) (Int.ofNat_le.mp le)
  unfold runScheduler
  show ∃ results, (makeFeeds (mathMin nFeeds (.int 6)).rounds).bind _ = _
  rw [made]
  exact ⟨_, rfl⟩

theorem format_both {ε α β γ : Type} (x : Except ε α) (y : Except ε β) (f : α → β → γ) :
    (∃ z, (do let a ← x; let b ← y; return f a b) = Except.ok z) ↔ (∃ a, x = .ok a) ∧ ∃ b, y = .ok b := by
  cases x with
  | error e => exact iff_of_false (fun h => nomatch h.choose_spec) fun h => nomatch h.1.choose_spec
  | ok a =>
    cases y with
    | error e => exact iff_of_false (fun h => nomatch h.choose_spec) fun h => nomatch h.2.choose_spec
    | ok b => exact iff_of_true ⟨f a b, rfl⟩ ⟨⟨a, rfl⟩, ⟨b, rfl⟩⟩

theorem streamBody_ok_iff (lib : Libm F) (fixed2 : F → String) (elapsedMs : F)
    (params : List Char → Option (List Char)) :
    (∃ body, streamBody lib fixed2 elapsedMs params = .ok body) ↔
      ¬ (feedsParam params).Fraction 1 6 ∧ ¬ (stepsParam params).Fraction 10 2000 := by
  have feeds : (∃ text, formatInt 3 (mathMax (.int 1) (mathMin (feedsParam params) (.int 6))) = .ok text) ↔
    ¬ (feedsParam params).Fraction 1 6 := formatInt_iff 3 1 6 (feedsParam params)
  have steps : (∃ text, formatInt 4 (mathMax (.int 10) (mathMin (stepsParam params) (.int 2000))) = .ok text) ↔
    ¬ (stepsParam params).Fraction 10 2000 := formatInt_iff 4 10 2000 (stepsParam params)
  obtain ⟨results, scheduled⟩ := runScheduler_ok lib fixed2 (mathMax (.int 1) (mathMin (feedsParam params) (.int 6)))
    (mathMax (.int 10) (mathMin (stepsParam params) (.int 2000)))
  rw [← feeds, ← steps, streamBody]
  simp only [scheduled]
  exact format_both _ _ _

/-- One answer, framed by its length, and no error. -/
def Handled.Answers (handled : Handled) : Prop :=
  ∃ text, handled = { sent := [text], error := none } ∧ Framed text

theorem answer_answers (body : String) {status : String} (plain : OneLine status) : (answer body status).Answers :=
  ⟨_, rfl, sendJson_framed body plain⟩

theorem stream_answers_iff (lib : Libm F) (fixed2 : F → String) (elapsedMs : F) {line : List Char}
    {params : List Char → Option (List Char)} (parsed : parseRequest line = some ("/api/lua/stream".toList, params)) :
    (handle lib fixed2 elapsedMs (some line)).Answers ↔ ∃ body, streamBody lib fixed2 elapsedMs params = .ok body := by
  have health : "/api/lua/stream".toList ≠ "/health".toList := by decide
  have status : "/api/lua/stream".toList ≠ "/api/lua/status".toList := by decide
  simp only [handle, parsed, if_neg health, if_neg status, if_true]
  cases streamBody lib fixed2 elapsedMs params with
  | ok body => exact iff_of_true (answer_answers body (by decide)) ⟨body, rfl⟩
  | error err =>
    refine iff_of_false ?_ fun h => nomatch h.choose_spec
    rintro ⟨text, answered, -⟩
    cases answered

theorem other_answers (lib : Libm F) (fixed2 : F → String) (elapsedMs : F) {line : List Char}
    (other : ∀ params, parseRequest line ≠ some ("/api/lua/stream".toList, params)) :
    (handle lib fixed2 elapsedMs (some line)).Answers := by
  have ok : OneLine "200 OK" := by decide
  have badRequest : OneLine "400 Bad Request" := by decide
  have notFound : OneLine "404 Not Found" := by decide
  cases parsed : parseRequest line with
  | none =>
    simp only [handle, parsed]
    exact answer_answers _ badRequest
  | some request =>
    obtain ⟨path, params⟩ := request
    have not_stream : path ≠ "/api/lua/stream".toList := fun same => other params (same ▸ parsed)
    simp only [handle, parsed, if_neg not_stream]
    split
    · exact answer_answers _ ok
    · split
      · exact answer_answers _ ok
      · exact answer_answers _ notFound

/-- Which requests get their answer: those for a stream must not ask for a fraction of a feed or of a step between the
bounds. -/
theorem handle_answers_iff (lib : Libm F) (fixed2 : F → String) (elapsedMs : F) (line : List Char) :
    (handle lib fixed2 elapsedMs (some line)).Answers ↔
      ∀ params, parseRequest line = some ("/api/lua/stream".toList, params) →
        ¬ (feedsParam params).Fraction 1 6 ∧ ¬ (stepsParam params).Fraction 10 2000 := by
  by_cases stream : ∃ params, parseRequest line = some ("/api/lua/stream".toList, params)
  · obtain ⟨params, parsed⟩ := stream
    rw [stream_answers_iff lib fixed2 elapsedMs parsed, streamBody_ok_iff]
    constructor
    · intro whole params' parsed'
      cases parsed.symm.trans parsed'
      exact whole
    · exact fun whole => whole params parsed
  · refine iff_of_true (other_answers lib fixed2 elapsedMs fun params parsed => stream ⟨params, parsed⟩) ?_
    exact fun params parsed => absurd ⟨params, parsed⟩ stream

theorem handle_fraction :
    ¬ (handle Libm.rational (fun _ => "0.00") 0 (some "GET /api/lua/stream?feeds=2.5 HTTP/1.1".toList)).Answers := by
  have unanswered : (handle Libm.rational (fun _ => "0.00") 0
      (some "GET /api/lua/stream?feeds=2.5 HTTP/1.1".toList)).sent = [] := by
    decide +kernel
  rintro ⟨text, answered, -⟩
  rw [answered] at unanswered
  cases unanswered

end PolyglotInfinity.StreamLua
