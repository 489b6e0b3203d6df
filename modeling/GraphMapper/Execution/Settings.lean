/-
Where to connect, and what else a connector is told once.

Settings come from a mapping; where it does not say, for some of them the
environment does. A setting that is given wins over the environment, one that
is empty or zero counts as not given.
-/
import GraphMapper.Value.Conversion

namespace GraphMapper

structure Settings where
  url : Value
  host : Value
  port : Int
  secure : Bool
  user : Value
  password : Value
  headers : Entries
  source : Value
  /-- Milliseconds after which an open transaction is given up. -/
  timeout : Int

namespace Settings

/-- Variables of the environment by name. -/
abbrev Environment := List (String × String)

def fromEnvironment (env : Environment) (name : String) : Value :=
  ((env.lookup name).map Value.text).getD .null

/-- The first value, or the other one when the first is not given. -/
def orElse (v default : Value) : Value := if v.isGiven then v else default

def defaultPort : Int := 8182

def defaultTimeout : Int := 5000

/-- The timeout entry: one under the second name counts only if there is none
under the first, which may hold nothing. -/
def timeoutEntry (es : Entries) : Value :=
  (Entries.lookup? (.text "transaction_timeout_ms") es).getD
    (Entries.field "transactionClearTimeout" es)

/-- Only the truth value false makes a connection insecure. -/
def isSecure (es : Entries) : Bool :=
  match Entries.field "secure" es with
  | .bool b => b
  | _ => true

def ofValue (env : Environment) (v : Value) : Checked Settings := do
  let es ← if v.isGiven then v.toEntries else .ok []
  let fromEnv (key var : String) : Value :=
    orElse (Entries.field key es) (fromEnvironment env var)
  let port ← (orElse (fromEnv "port" "GREMLIN_PORT") (.int defaultPort)).toInt
  let headers := Entries.field "headers" es
  let headers ← if headers.isGiven then headers.toEntries else .ok []
  let timeout ← match timeoutEntry es with
    | .null => .ok defaultTimeout
    | t => t.toInt
  if timeout ≤ 0 then
    .error (.validation "transaction_timeout_ms must be positive" [])
  else
    .ok {
      url := fromEnv "url" "GREMLIN_URL"
      host := fromEnv "host" "GREMLIN_HOST"
      port, secure := isSecure es
      user := fromEnv "user" "GREMLIN_USER"
      password := fromEnv "password" "GREMLIN_PASSWORD"
      headers, source :=
        orElse (Entries.field "traversal_source" es) (.text "g")
      timeout }

/-- The URL to connect to: the given one, or that of host and port. -/
def resolveUrl (s : Settings) : Checked Value :=
  if s.url.isGiven then .ok s.url
  else if s.host.isGiven then do
    .ok (.text ((if s.secure then "wss" else "ws") ++ "://" ++ (← s.host.plain)
      ++ ":" ++ (← Printer.integer s.port) ++ "/gremlin"))
  else .error (.validation "either url or host must be configured" [])

end Settings

end GraphMapper
