import PolyglotInfinity.Lib.Libm
import PolyglotInfinity.StreamLua.Lua

/-!
# The stream server

A request of the Lua server, from its first line to what is sent. The prices are computed in
any field, `fixed2` writes them; socket operations succeed, and an error ends the request.
-/

namespace PolyglotInfinity.StreamLua

variable {F : Type} [Field F] [LinearOrder F]

/-! ### Feeds -/

def lcgNext (s : ℕ) : ℕ := (1664525 * s + 1013904223) % 2 ^ 32

def lcgUniform (s : ℕ) : F × ℕ :=
  let ns := lcgNext s
  ((ns : F) / ((2 ^ 32 - 1 : ℕ) : F), ns)

def boxMuller (lib : Libm F) (s : ℕ) : F × ℕ :=
  let (u1, s1) := lcgUniform s
  let (u2, s2) := lcgUniform s1
  let u1 := max u1 1e-15
  (lib.sqrt (-2.0 * lib.log u1) * lib.cos (2.0 * 3.141592653589793 * u2), s2)

/-- A feed with the variables of its coroutine, which is suspended between two rounds. -/
structure Feed (F : Type) where
  symbol : String
  s : ℕ
  price : F
  annualVol : F
  annualMu : F
  prices : List F

/-- `coroutine.resume`, and the price that is yielded. -/
def Feed.resume (lib : Libm F) (feed : Feed F) : Feed F :=
  let dt := 1.0 / 252.0
  let (z, s) := boxMuller lib feed.s
  let drift := (feed.annualMu - 0.5 * feed.annualVol ^ 2) * dt
  let diffusion := feed.annualVol * lib.sqrt dt * z
  let price := feed.price * lib.exp (drift + diffusion)
  { feed with s, price, prices := feed.prices ++ [price] }

def configs : List (Feed F) := [
  { symbol := "AAPL", s := 42, price := 182.0, annualVol := 0.25, annualMu := 0.12, prices := [] },
  { symbol := "NVDA", s := 137, price := 875.0, annualVol := 0.45, annualMu := 0.30, prices := [] },
  { symbol := "MSFT", s := 99, price := 420.0, annualVol := 0.22, annualMu := 0.14, prices := [] },
  { symbol := "TSLA", s := 256, price := 215.0, annualVol := 0.55, annualMu := 0.18, prices := [] },
  { symbol := "GOOG", s := 17, price := 168.0, annualVol := 0.28, annualMu := 0.13, prices := [] },
  { symbol := "META", s := 333, price := 510.0, annualVol := 0.32, annualMu := 0.20, prices := [] }]

/-- The statistics of a feed. -/
def Feed.result (lib : Libm F) (fixed2 : F → String) (feed : Feed F) : String :=
  let prices := feed.prices
  let n := prices.length
  let first := prices.head?.getD 0
  let last := prices.getLast?.getD 0
  let ret := if 0 < n then (last - first) / max first 1e-15 else 0
  let logRets := List.zipWith (fun before price => lib.log (max (price / before) 1e-15)) prices prices.tail
  let mean := logRets.foldl (· + ·) 0 / ((max logRets.length 1 : ℕ) : F)
  let var := logRets.foldl (fun var r => var + (r - mean) ^ 2) 0 / ((max (logRets.length - 1) 1 : ℕ) : F)
  let volAnn := lib.sqrt (var * 252.0) * 100.0
  "\x7b\"symbol\":\"" ++ feed.symbol ++ "\",\"ticks\":" ++ toString n ++ ",\"start_price\":" ++ fixed2 first ++
    ",\"end_price\":" ++ fixed2 last ++ ",\"return_pct\":" ++ fixed2 (ret * 100.0) ++ ",\"ann_vol_pct\":" ++
    fixed2 volAnn ++ ",\"coroutine_status\":\"suspended\"\x7d"

/-- `configs[i]` for `i` from 1; `nil` has no fields. -/
def makeFeeds (n : ℕ) : Except String (List (Feed F)) :=
  (List.range n).mapM fun i =>
    match configs[i]? with
    | some c => .ok c
    | none => .error "attempt to index a nil value (local 'c')"

/-- A step resumes each feed once. -/
def step (lib : Libm F) (st : List (Feed F) × ℕ) : List (Feed F) × ℕ :=
  (st.1.map (Feed.resume lib), st.2 + st.1.length)

def runScheduler (lib : Libm F) (fixed2 : F → String) (nFeeds nSteps : Number) : Except String (List String × ℕ) := do
  let nFeeds := mathMin nFeeds (.int (Int64.ofNat (configs (F := F)).length))
  let feeds ← makeFeeds nFeeds.rounds
  let (feeds, totalResumes) := (step lib)^[nSteps.rounds] (feeds, 0)
  return (feeds.map (Feed.result lib fixed2), totalResumes)

/-! ### Requests -/

/-- `^%u+ (/[^?%s]*)%??(.-) HTTP` -/
def requestPattern : List Item := [
  .plus Char.isUpper, .one (· = ' '),
  .opening, .one (· = '/'), .star (fun c => !(c = '?' || isSpace c)), .closing,
  .optional (· = '?'),
  .opening, .lazy (fun _ => true), .closing,
  .one (· = ' '), .one (· = 'H'), .one (· = 'T'), .one (· = 'T'), .one (· = 'P')]

/-- `([^&=]+)=([^&]+)` -/
def paramPattern : List Item := [
  .opening, .plus (fun c => !(c = '&' || c = '=')), .closing,
  .one (· = '='),
  .opening, .plus (fun c => !(c = '&')), .closing]

/-- The path and the parameters, where a later one replaces an earlier one of its name. -/
def parseRequest (line : List Char) : Option (List Char × (List Char → Option (List Char))) :=
  match matchHere requestPattern line line with
  | some ([path, qs], _) =>
    some (path, (gmatch paramPattern qs).foldl
      (fun params captures =>
        match captures with
        | [k, v] => Function.update params k (some v)
        | _ => params)
      fun _ => none)
  | _ => none

def sendJson (body : String) (status : String) : String :=
  "HTTP/1.1 " ++ status ++ "\r\n"
    ++ "Content-Type: application/json\r\n"
    ++ "Content-Length: " ++ toString body.utf8ByteSize ++ "\r\n"
    ++ "Access-Control-Allow-Origin: *\r\n"
    ++ "Connection: close\r\n\r\n"
    ++ body

def version : String := "Lua 5.4"

/-- The feeds and the steps that a request asks for. -/
def feedsParam (params : List Char → Option (List Char)) : Number :=
  (tonumber (params "feeds".toList)).getD (.int 4)

def stepsParam (params : List Char → Option (List Char)) : Number :=
  (tonumber (params "steps".toList)).getD (.int 200)

/-- The body for a stream, with the milliseconds that the scheduler took. -/
def streamBody (lib : Libm F) (fixed2 : F → String) (elapsedMs : F) (params : List Char → Option (List Char)) :
    Except String String := do
  let nFeeds := mathMax (.int 1) (mathMin (feedsParam params) (.int 6))
  let nSteps := mathMax (.int 10) (mathMin (stepsParam params) (.int 2000))
  let (results, totalResumes) ← runScheduler lib fixed2 nFeeds nSteps
  return "\x7b\"lang\":\"lua\",\"version\":\"" ++ version ++ "\",\"paradigm\":\"coroutine\","
    ++ "\"n_feeds\":" ++ (← formatInt 3 nFeeds) ++ ",\"steps_per_feed\":" ++ (← formatInt 4 nSteps)
    ++ ",\"total_resumes\":" ++ toString totalResumes ++ ","
    ++ "\"elapsed_ms\":" ++ fixed2 elapsedMs ++ ","
    ++ "\"scheduler\":\"single-thread round-robin — no OS threads, no locks, no callbacks\","
    ++ "\"feeds\":[" ++ ",".intercalate results ++ "]\x7d"

/-- What a request sends, and the error that ends it. -/
structure Handled where
  sent : List String
  error : Option String

def answer (body status : String) : Handled := { sent := [sendJson body status], error := none }

def handle (lib : Libm F) (fixed2 : F → String) (elapsedMs : F) (line : Option (List Char)) : Handled :=
  match line with
  | none => { sent := [], error := none }
  | some line =>
    match parseRequest line with
    | none => answer "\x7b\"error\":\"bad request\"\x7d" "400 Bad Request"
    | some (path, params) =>
      if path = "/health".toList then
        answer ("\x7b\"status\":\"ok\",\"lang\":\"lua\",\"version\":\"" ++ version ++ "\",\"port\":8007\x7d") "200 OK"
      else if path = "/api/lua/status".toList then
        answer ("\x7b\"lang\":\"lua\",\"version\":\"" ++ version ++ "\",\"port\":8007,"
          ++ "\"paradigm\":\"cooperative-multitasking\","
          ++ "\"description\":\"single OS thread — coroutines yield/resume for interleaving\","
          ++ "\"max_feeds\":6\x7d") "200 OK"
      else if path = "/api/lua/stream".toList then
        match streamBody lib fixed2 elapsedMs params with
        | .ok body => answer body "200 OK"
        | .error err => { sent := [], error := some err }
      else answer "\x7b\"error\":\"not found\"\x7d" "404 Not Found"

end PolyglotInfinity.StreamLua
