import PolyglotInfinity.Lib.Uri
import PolyglotInfinity.Saga.System

/-!
# The saga's URL

The coordinator puts the accounts of an order into a URL as they are, and the
ledger reads them back from the decoded query.
-/

namespace PolyglotInfinity.Saga

open Orders (NewOrder Request parsePost)
open Ledger (param transferArgs)

/-- The JDK's URLs. The request carries the URL's query as it stands. -/
def jdk (gatewayUrl : String) (head : List Char → Bool) (header : String → Bool)
    (doubleText : Extended → String) : Platform where
  gatewayUrl
  doubleText
  header
  query url := (Uri.create head url.toList).map fun parts => String.ofList (parts.getQuery.getD [])

/-- What is known of `Double.toString` at a double: a decimal numeral, or a word, that reads
as the same double. -/
structure Prints (doubleText : Extended → String) (x : Extended) : Prop where
  numeral : ∀ c ∈ (doubleText x).toList, c.isAlphanum ∨ c = '.' ∨ c = '-'
  reads : ParseDouble.parseDouble (doubleText x) = some x

def parameter (key value : String) : List Char := key.toList ++ '=' :: value.toList

def accountsText (o : NewOrder) : List Char :=
  parameter "from" o.fromAccount ++ '&' :: parameter "to" o.toAccount

def queryText (o : NewOrder) (amount : String) : List Char :=
  accountsText o ++ '&' :: parameter "amount" amount

section
variable {gatewayUrl : String} {head : List Char → Bool} {header : String → Bool}
  {doubleText : Extended → String} {o : NewOrder} {query amount : String}

theorem url_text : ((jdk gatewayUrl head header doubleText).url o).toList =
    (gatewayUrl.toList ++ "/api/clojure/transfer".toList) ++
      '?' :: queryText o (doubleText o.amount) := by
  simp [Platform.url, jdk, queryText, accountsText, parameter]

/-- The query that is sent ends where the first `#` stands. -/
theorem request_query (base : '?' ∉ gatewayUrl.toList ∧ '#' ∉ gatewayUrl.toList)
    (sent : (jdk gatewayUrl head header doubleText).request o = some query) :
    Uri.legal (Query.splitFirst '#' (queryText o (doubleText o.amount))).1 ∧
      query.toList = Uri.decode (Query.splitFirst '#' (queryText o (doubleText o.amount))).1 := by
  simp only [Platform.request, Option.ite_none_right_eq_some] at sent
  obtain ⟨-, sent⟩ := sent
  obtain ⟨parts, created, rfl⟩ := Option.map_eq_some_iff.mp sent
  obtain ⟨rfl, fine⟩ := Uri.create_some created
  rw [url_text] at fine ⊢
  have here := Uri.split_query (queryText o (doubleText o.amount))
    (List.not_mem_append base.1 (by decide : '?' ∉ "/api/clojure/transfer".toList))
    (List.not_mem_append base.2 (by decide : '#' ∉ "/api/clojure/transfer".toList))
  refine ⟨fine _ here, ?_⟩
  rw [String.toList_ofList, Uri.Parts.getQuery, here]
  rfl

/-- No account of an accepted order holds a `&`. -/
theorem accounts_pieces {req : Request} (accepted : parsePost req = .ok o) :
    '&' ∉ o.fromAccount.toList ∧ '&' ∉ o.toAccount.toList := by
  obtain ⟨fromAccount, toAccount⟩ := Orders.parsePost_accounts accepted
  rw [fromAccount, toAccount]
  constructor
  · cases given : req.param "from" with
    | none => decide
    | some value => exact Orders.param_piece given
  · cases given : req.param "to" with
    | none => decide
    | some value => exact Orders.param_piece given

theorem Prints.plain {x : Extended} (prints : Prints doubleText x) {c : Char}
    (special : c.isAlphanum = false ∧ c ≠ '.' ∧ c ≠ '-') : c ∉ (doubleText x).toList := by
  intro member
  rcases prints.numeral c member with letter | point | minus
  · exact absurd letter (by simp [special.1])
  · exact special.2.1 point
  · exact special.2.2 minus

theorem parameter_free {key value : String} {c : Char} (plain : c ∉ key.toList)
    (apart : c ≠ '=') (free : c ∉ value.toList) : c ∉ parameter key value :=
  List.not_mem_append plain (List.not_mem_cons_of_ne_of_not_mem apart free)

/-- A value that the ledger reads as given stands in the query, unless it is the default. -/
theorem param_stands {key value default : String} (read : param query key default = value)
    (fallback : value = default → parameter key value ∈ Query.splitOn '&' query.toList) :
    parameter key value ∈ Query.splitOn '&' query.toList := by
  cases found : Query.get (Ledger.parseQs query) key with
  | none =>
    rw [param, found] at read
    exact fallback read.symm
  | some v =>
    rw [param, found] at read
    obtain rfl : v = value := read
    exact Query.get_piece found

/-- A text that no separator, fragment or escape can start in. -/
def Plain (xs : List Char) : Prop := '#' ∉ xs ∧ '%' ∉ xs ∧ '&' ∉ xs

theorem amount_plain (prints : Prints doubleText o.amount) :
    Plain (parameter "amount" (doubleText o.amount)) :=
  ⟨parameter_free (by decide) (by decide) (prints.plain (by decide)),
    parameter_free (by decide) (by decide) (prints.plain (by decide)),
    parameter_free (by decide) (by decide) (prints.plain (by decide))⟩

theorem queryText_free {c : Char} (apart : c ≠ '&') (accounts : c ∉ accountsText o)
    (amountPlain : c ∉ parameter "amount" amount) : c ∉ queryText o amount :=
  List.not_mem_append accounts (List.not_mem_cons_of_ne_of_not_mem apart amountPlain)

theorem queryText_pieces {req : Request} (accepted : parsePost req = .ok o)
    (plain : Plain (parameter "amount" amount)) :
    Query.splitOn '&' (queryText o amount) =
      [parameter "from" o.fromAccount, parameter "to" o.toAccount, parameter "amount" amount] := by
  obtain ⟨source, target⟩ := accounts_pieces accepted
  rw [queryText, accountsText, Query.splitOn_append, Query.splitOn_append,
    Query.splitOn_whole (parameter_free (by decide) (by decide) source),
    Query.splitOn_whole (parameter_free (by decide) (by decide) target), Query.splitOn_whole plain.2.2]
  rfl

theorem accountsText_free {c : Char} (apart : c = '#' ∨ c = '%') :
    c ∉ accountsText o ↔ c ∉ o.fromAccount.toList ++ o.toAccount.toList := by
  rcases apart with rfl | rfl <;> simp [accountsText, parameter]

theorem param_only {key value default : String}
    (piece : parameter key value ∈ Query.splitOn '&' query.toList)
    (only : ∀ v, key.toList ++ '=' :: v ∈ Query.splitOn '&' query.toList → v = value.toList)
    (named : key.toList ≠ []) (plain : '=' ∉ key.toList) : param query key default = value := by
  rw [param, Ledger.parseQs, Query.get_only piece only (by simpa using named) plain]
  rfl

theorem plain_accounts_arrive {req : Request} (base : '?' ∉ gatewayUrl.toList ∧ '#' ∉ gatewayUrl.toList)
    (accepted : parsePost req = .ok o) (prints : Prints doubleText o.amount)
    (sent : (jdk gatewayUrl head header doubleText).request o = some query)
    (plain : '#' ∉ accountsText o ∧ '%' ∉ accountsText o) :
    transferArgs query = some ⟨o.fromAccount, o.toAccount, o.amount⟩ := by
  obtain ⟨-, text⟩ := request_query base sent
  have amountPlain := amount_plain prints
  have uncut := queryText_free (by decide) plain.1 amountPlain.1
  have unescaped := queryText_free (by decide) plain.2 amountPlain.2.1
  have pieces := queryText_pieces accepted amountPlain
  rw [Query.splitFirst_whole uncut, Uri.decode_plain unescaped] at text
  rw [← text] at pieces
  have source : param query "from" "ACC-001" = o.fromAccount := by
    apply param_only (by simp [pieces]) _ (by decide) (by decide)
    intro v member
    simpa [pieces, parameter] using member
  have target : param query "to" "ACC-002" = o.toAccount := by
    apply param_only (by simp [pieces]) _ (by decide) (by decide)
    intro v member
    simpa [pieces, parameter] using member
  have amount : param query "amount" "100.0" = doubleText o.amount := by
    apply param_only (by simp [pieces]) _ (by decide) (by decide)
    intro v member
    simpa [pieces, parameter] using member
  rw [transferArgs, source, target, amount, prints.reads]
  rfl

/-! ### Accounts with special characters -/

theorem accounts_fit {xs : List Char}
    (source : parameter "from" o.fromAccount ∈ Query.splitOn '&' xs)
    (target : parameter "to" o.toAccount ∈ Query.splitOn '&' xs) :
    (accountsText o).length ≤ xs.length := by
  have distinct : [parameter "from" o.fromAccount, parameter "to" o.toAccount].Nodup := by
    simp [parameter]
  have both : [parameter "from" o.fromAccount, parameter "to" o.toAccount] ⊆ Query.splitOn '&' xs := by
    simp [source, target]
  have fit := Query.pieces_length distinct both
  simp only [List.map_cons, List.map_nil, List.sum_cons, List.sum_nil] at fit
  rw [accountsText, List.length_append, List.length_cons]
  omega

/-- The default sender stands in the query whatever comes behind it. -/
theorem default_sender_stands (o : NewOrder) (amount : String) (default : o.fromAccount = "ACC-001") :
    parameter "from" o.fromAccount ∈
      Query.splitOn '&' (Uri.decode (Query.splitFirst '#' (queryText o amount)).1) := by
  have front : queryText o amount = (parameter "from" "ACC-001" ++ ['&']) ++
      (parameter "to" o.toAccount ++ '&' :: parameter "amount" amount) := by
    simp [queryText, accountsText, default]
  rw [front, Query.splitFirst_before (by decide), Uri.decode, Uri.decodeFrom_plain (by decide),
    List.append_assoc, List.singleton_append, Query.splitOn_append, default,
    Query.splitOn_whole (by decide)]
  apply List.mem_append_left
  exact List.mem_singleton.mpr rfl

theorem default_receiver_stands (plain : '%' ∉ parameter "amount" amount)
    (fine : Uri.legal (queryText o amount)) (default : o.toAccount = "ACC-002") :
    parameter "to" o.toAccount ∈ Query.splitOn '&' (Uri.decode (queryText o amount)) := by
  have front : queryText o amount = parameter "from" o.fromAccount ++
      '&' :: (parameter "to" "ACC-002" ++ '&' :: parameter "amount" amount) := by
    simp [queryText, accountsText, default]
  have rest : '%' ∉ parameter "to" "ACC-002" ++ '&' :: parameter "amount" amount :=
    List.not_mem_append (by decide) (List.not_mem_cons_of_ne_of_not_mem (by decide) plain)
  have whole : '&' ∉ parameter "to" "ACC-002" := by decide
  have decoded := Uri.decode_plain rest
  rw [front] at fine ⊢
  rw [Uri.decode, Uri.decodeFrom_append fine (by decide) (by decide), ← Uri.decode, ← Uri.decode,
    decoded, default, Query.splitOn_append, Query.splitOn_append, Query.splitOn_whole whole]
  simp

/-- A `#` in the accounts cuts the query too short for what they hold. -/
theorem accounts_uncut {xs : List Char}
    (received : xs.length ≤ (Query.splitFirst '#' (queryText o amount)).1.length)
    (sender : parameter "from" o.fromAccount ∈ Query.splitOn '&' xs)
    (receiver : o.toAccount ≠ "ACC-002" → parameter "to" o.toAccount ∈ Query.splitOn '&' xs) :
    '#' ∉ accountsText o := by
  have uncutSender : '#' ∉ parameter "from" o.fromAccount := by
    intro cut
    have piece : [parameter "from" o.fromAccount] ⊆ Query.splitOn '&' xs := by simpa using sender
    have fit := Query.pieces_length (List.nodup_singleton _) piece
    have shorter := Query.splitFirst_shorter cut
      ('&' :: (parameter "to" o.toAccount ++ '&' :: parameter "amount" amount))
    rw [← List.cons_append, ← List.append_assoc, ← accountsText, ← queryText] at shorter
    simp only [List.map_cons, List.map_nil, List.sum_cons, List.sum_nil] at fit
    omega
  intro cut
  have cutReceiver : '#' ∈ parameter "to" o.toAccount := by
    simpa using (List.mem_append.mp cut).resolve_left uncutSender
  have given : o.toAccount ≠ "ACC-002" := by
    intro default
    rw [default] at cutReceiver
    exact absurd cutReceiver (by decide)
  have fit := accounts_fit sender (receiver given)
  have shorter := Query.splitFirst_shorter cut ('&' :: parameter "amount" amount)
  rw [← queryText] at shorter
  omega

/-- An escape in the accounts leaves too few characters once it is decoded. -/
theorem accounts_unescaped (plain : Plain (parameter "amount" amount))
    (fine : Uri.legal (queryText o amount))
    (sender : parameter "from" o.fromAccount ∈ Query.splitOn '&' (Uri.decode (queryText o amount)))
    (receiver : parameter "to" o.toAccount ∈ Query.splitOn '&' (Uri.decode (queryText o amount))) :
    '%' ∉ accountsText o := by
  have pieces : Query.splitOn '&' (Uri.decode (queryText o amount)) =
      Query.splitOn '&' (Uri.decode (accountsText o)) ++ [parameter "amount" amount] := by
    rw [Uri.decode, queryText, Uri.decodeFrom_append fine (by decide) (by decide), ← Uri.decode,
      ← Uri.decode, Uri.decode_plain plain.2.1, Query.splitOn_append, Query.splitOn_whole plain.2.2]
  have inFront : ∀ p ∈ Query.splitOn '&' (Uri.decode (queryText o amount)),
      p ≠ parameter "amount" amount → p ∈ Query.splitOn '&' (Uri.decode (accountsText o)) := by
    intro p member other
    rw [pieces, List.mem_append, List.mem_singleton] at member
    exact member.resolve_right other
  intro escaped
  have fit := accounts_fit (inFront _ sender (by simp [parameter])) (inFront _ receiver (by simp [parameter]))
  have shorter := Uri.decode_shorter escaped
  omega

theorem arrived_accounts_plain (base : '?' ∉ gatewayUrl.toList ∧ '#' ∉ gatewayUrl.toList)
    (prints : Prints doubleText o.amount)
    (sent : (jdk gatewayUrl head header doubleText).request o = some query)
    (arrived : transferArgs query = some ⟨o.fromAccount, o.toAccount, o.amount⟩) :
    '#' ∉ accountsText o ∧ '%' ∉ accountsText o := by
  have amountPlain := amount_plain prints
  obtain ⟨fine, text⟩ := request_query base sent
  obtain ⟨amount, -, args⟩ := Option.map_eq_some_iff.mp arrived
  obtain ⟨source, target, -⟩ := Ledger.TransferArgs.mk.inj args
  have sender : parameter "from" o.fromAccount ∈ Query.splitOn '&' query.toList :=
    param_stands source fun default => text ▸ default_sender_stands o _ default
  have received := Uri.decode_length (Query.splitFirst '#' (queryText o (doubleText o.amount))).1
  rw [← text] at received
  have uncut : '#' ∉ accountsText o := by
    apply accounts_uncut received sender
    intro given
    exact param_stands target fun default => absurd default given
  refine ⟨uncut, ?_⟩
  rw [Query.splitFirst_whole (queryText_free (by decide) uncut amountPlain.1)] at fine text
  have receiver : parameter "to" o.toAccount ∈ Query.splitOn '&' query.toList :=
    param_stands target fun default => text ▸ default_receiver_stands amountPlain.2.1 fine default
  rw [text] at sender receiver
  exact accounts_unescaped amountPlain fine sender receiver

/-- The ledger reads the accounts and the amount of the order exactly if neither
account has a `#` or a `%`. -/
theorem order_arrives_iff {req : Request} (base : '?' ∉ gatewayUrl.toList ∧ '#' ∉ gatewayUrl.toList)
    (accepted : parsePost req = .ok o) (prints : IsDouble o.amount → Prints doubleText o.amount)
    (sent : (jdk gatewayUrl head header doubleText).request o = some query) :
    transferArgs query = some ⟨o.fromAccount, o.toAccount, o.amount⟩ ↔
      ∀ c ∈ o.fromAccount.toList ++ o.toAccount.toList, c ≠ '#' ∧ c ≠ '%' := by
  have plain : ('#' ∉ accountsText o ∧ '%' ∉ accountsText o) ↔
      ∀ c ∈ o.fromAccount.toList ++ o.toAccount.toList, c ≠ '#' ∧ c ≠ '%' := by
    rw [accountsText_free (.inl rfl), accountsText_free (.inr rfl)]
    constructor
    · rintro ⟨uncut, unescaped⟩ c member
      exact ⟨fun same => uncut (same ▸ member), fun same => unescaped (same ▸ member)⟩
    · intro plain
      exact ⟨fun member => (plain _ member).1 rfl, fun member => (plain _ member).2 rfl⟩
  have printed := prints (Orders.parsePost_amount accepted)
  rw [← plain]
  exact ⟨arrived_accounts_plain base printed sent, plain_accounts_arrive base accepted printed sent⟩

end

/-- The gateway at its default address, and the text that Java has for the amount. -/
def defaultJdk (amount : String) : Platform :=
  jdk "http://server-go:8080" (fun _ => true) (fun _ => true) fun _ => amount

/-- The amount is no double: what arrives is the nearest one, which Java writes as 0.3. -/
theorem order_arrives_iff_rounded : ∃ o query,
    parsePost ⟨"id=o1&from=ACC-003&to=a=b&amount=0.30000000000000001", "c0"⟩ = .ok o ∧
      (defaultJdk "0.3").request o = some query ∧
      transferArgs query = some ⟨"ACC-003", "a=b", .fin (5404319552844595 / 2 ^ 54)⟩ := by
  have accepted : parsePost ⟨"id=o1&from=ACC-003&to=a=b&amount=0.30000000000000001", "c0"⟩ =
      .ok ⟨"o1", "BUY", "ACC-003", "a=b", .fin (5404319552844595 / 2 ^ 54), "c0"⟩ := by decide +kernel
  obtain ⟨query, sent⟩ : ∃ query, (defaultJdk "0.3").request
      ⟨"o1", "BUY", "ACC-003", "a=b", .fin (5404319552844595 / 2 ^ 54), "c0"⟩ = some query :=
    Option.isSome_iff_exists.mp (by decide +kernel)
  have prints : Prints (fun _ => "0.3") (.fin (5404319552844595 / 2 ^ 54)) := by
    refine ⟨?_, by decide +kernel⟩
    intro c member
    rw [show "0.3".toList = ['0', '.', '3'] from rfl] at member
    simp only [List.mem_cons, List.not_mem_nil, or_false] at member
    rcases member with rfl | rfl | rfl <;> decide
  refine ⟨_, query, accepted, sent, (order_arrives_iff (by decide) accepted (fun _ => prints) sent).mpr ?_⟩
  intro c member
  have unmarked : '#' ∉ "ACC-003".toList ++ "a=b".toList ∧ '%' ∉ "ACC-003".toList ++ "a=b".toList := by
    decide
  exact ⟨fun same => unmarked.1 (same ▸ member), fun same => unmarked.2 (same ▸ member)⟩

/-- A sender `A#B` leaves the ledger with the sender `A` and its own defaults. -/
theorem fragment_lost : ¬ ∀ o query,
    parsePost ⟨"id=o1&from=A#B&to=ACC-003&amount=20", "c0"⟩ = .ok o →
      (defaultJdk "20.0").request o = some query →
      transferArgs query = some ⟨o.fromAccount, o.toAccount, o.amount⟩ := by
  intro arrives
  have read : transferArgs "from=A" = some ⟨"A#B", "ACC-003", .fin 20⟩ :=
    arrives ⟨"o1", "BUY", "A#B", "ACC-003", .fin 20, "c0"⟩ "from=A"
      (by decide +kernel) (by decide +kernel)
  exact absurd read (by decide +kernel)

end PolyglotInfinity.Saga
