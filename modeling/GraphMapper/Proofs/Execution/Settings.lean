/-
What the environment has a say in.

Five settings fall back on a variable of the environment, each of them for
itself, so the variables of what a mapping leaves open are all that matters of
an environment (`AgreeBeyond`). What a mapping gives is what the settings have
(`Gives`).

Where to connect follows from three of these settings: the URL goes before host
and port, and by then it does not matter where it is from. So a mapping that
names a host and a port, but no URL, is overruled by an environment that has
one. No other variable can move a connection that the mapping has named.

Main statement: `explicit_settings_win`.
-/
import GraphMapper.Execution.Settings
import GraphMapper.Proofs.Failure.Checked

namespace GraphMapper

namespace Settings

open Entries (field)

/-- Settings with the variables that they fall back on. -/
def fallbacks : List (String × String) :=
  [("url", "GREMLIN_URL"), ("host", "GREMLIN_HOST"), ("port", "GREMLIN_PORT"),
   ("user", "GREMLIN_USER"), ("password", "GREMLIN_PASSWORD")]

/-- The environments agree on the variables of what the mapping does not
say. -/
def AgreeBeyond (es : Entries) (env env' : Environment) : Prop :=
  ∀ f ∈ fallbacks, (field f.1 es).isGiven = false →
    fromEnvironment env f.2 = fromEnvironment env' f.2

/-- What the mapping says is what the settings say. -/
structure Gives (es : Entries) (s : Settings) : Prop where
  url : (field "url" es).isGiven = true → s.url = field "url" es
  host : (field "host" es).isGiven = true → s.host = field "host" es
  port : (field "port" es).isGiven = true →
    (field "port" es).toInt = .ok s.port
  user : (field "user" es).isGiven = true → s.user = field "user" es
  password : (field "password" es).isGiven = true →
    s.password = field "password" es

/-- The mapping says where to connect. -/
def Names (es : Entries) : Prop :=
  (field "url" es).isGiven = true ∨
    ((field "host" es).isGiven = true ∧ (field "port" es).isGiven = true)

/-- The URL that is in a mapping, or that of the host and the port there. -/
def named (es : Entries) : Checked Value :=
  if (field "url" es).isGiven then .ok (field "url" es)
  else do
    let port ← (field "port" es).toInt
    let host ← (field "host" es).plain
    let port ← Printer.integer port
    .ok (.text ((if isSecure es then "wss" else "ws") ++ "://" ++ host ++ ":"
      ++ port ++ "/gremlin"))

/-- The headers of a mapping, none if it has no such entry. -/
def headersOf (es : Entries) : Checked Entries :=
  if (field "headers" es).isGiven then (field "headers" es).toEntries
  else .ok []

def timeoutOf (es : Entries) : Checked Int :=
  match timeoutEntry es with
  | .null => .ok defaultTimeout
  | t => t.toInt

private theorem orElse_given {v : Value} (h : v.isGiven = true)
    (default : Value) : orElse v default = v := if_pos h

private theorem orElse_not_given {v : Value} (h : v.isGiven = false)
    (default : Value) :
    orElse v default = default := if_neg (by rw [h]; decide)

variable {es : Entries} {env env' : Environment} {s : Settings}

/-- A mapping is read as it is. -/
private theorem ofValue_map (env : Environment) (es : Entries) :
    ofValue env (.map es) = (do
      let port ← (orElse
        (orElse (field "port" es) (fromEnvironment env "GREMLIN_PORT"))
          (.int defaultPort)).toInt
      let headers ← headersOf es
      let timeout ← timeoutOf es
      if timeout ≤ 0 then
        .error (.validation "transaction_timeout_ms must be positive" [])
      else
        .ok {
          url := orElse (field "url" es) (fromEnvironment env "GREMLIN_URL")
          host := orElse (field "host" es) (fromEnvironment env "GREMLIN_HOST")
          port, secure := isSecure es
          user := orElse (field "user" es) (fromEnvironment env "GREMLIN_USER")
          password := orElse (field "password" es)
            (fromEnvironment env "GREMLIN_PASSWORD")
          headers, source := orElse (field "traversal_source" es) (.text "g")
          timeout }) := by
  have hheaders : ∀ k : Entries → Checked Settings, headersOf es >>= k
      = if (field "headers" es).isGiven then (field "headers" es).toEntries
        >>= k else k [] := by
    intro k
    unfold headersOf
    split <;> rfl
  have htimeout : ∀ k : Int → Checked Settings, timeoutOf es >>= k
      = match timeoutEntry es with
        | .null => k defaultTimeout
        | t => t.toInt >>= k := by
    intro k
    unfold timeoutOf
    split <;> rfl
  simp only [hheaders, htimeout]
  cases es <;> rfl

/-- Where a mapping is silent the environments are of one mind. -/
private theorem AgreeBeyond.orElse_eq (h : AgreeBeyond es env env')
    {key var : String} (hf : (key, var) ∈ fallbacks) :
    orElse (field key es) (fromEnvironment env var)
      = orElse (field key es) (fromEnvironment env' var) := by
  cases hgiven : (field key es).isGiven with
  | true => rw [orElse_given hgiven, orElse_given hgiven]
  | false => rw [h (key, var) hf hgiven]

private theorem ofValue_congr (h : AgreeBeyond es env env') :
    ofValue env (.map es) = ofValue env' (.map es) := by
  rw [ofValue_map, ofValue_map, h.orElse_eq (by decide),
    h.orElse_eq (by decide), h.orElse_eq (by decide), h.orElse_eq (by decide),
    h.orElse_eq (by decide)]

/-- Settings are those of the mapping or else of the environment. -/
private theorem eq_of_ofValue (h : ofValue env (.map es) = .ok s) :
    s.url = orElse (field "url" es) (fromEnvironment env "GREMLIN_URL") ∧
    s.host = orElse (field "host" es) (fromEnvironment env "GREMLIN_HOST") ∧
    (orElse (orElse (field "port" es) (fromEnvironment env "GREMLIN_PORT"))
      (.int defaultPort)).toInt = .ok s.port ∧
    s.secure = isSecure es ∧
    s.user = orElse (field "user" es) (fromEnvironment env "GREMLIN_USER") ∧
    s.password = orElse (field "password" es)
        (fromEnvironment env "GREMLIN_PASSWORD") := by
  rw [ofValue_map] at h
  obtain ⟨port, hport, h⟩ := bind_eq_ok h
  obtain ⟨headers, -, h⟩ := bind_eq_ok h
  obtain ⟨timeout, -, h⟩ := bind_eq_ok h
  split at h
  · cases h
  · obtain rfl := Except.ok.inj h
    exact ⟨rfl, rfl, hport, rfl, rfl, rfl⟩

private theorem gives_of_ofValue (h : ofValue env (.map es) = .ok s) :
    Gives es s := by
  obtain ⟨hurl, hhost, hport, -, huser, hpassword⟩ := eq_of_ofValue h
  exact {
    url := fun hgiven => hurl.trans (orElse_given hgiven _)
    host := fun hgiven => hhost.trans (orElse_given hgiven _)
    port := fun hgiven => by
      rwa [orElse_given hgiven, orElse_given hgiven] at hport
    user := fun hgiven => huser.trans (orElse_given hgiven _)
    password := fun hgiven => hpassword.trans (orElse_given hgiven _) }

/-- Where a mapping says to connect to, the settings connect to; but a URL of
the environment goes before a host and a port. -/
private theorem resolveUrl_named (hnames : Names es)
    (h : ofValue env (.map es) = .ok s) :
    s.resolveUrl =
      if (field "url" es).isGiven ||
        !(fromEnvironment env "GREMLIN_URL").isGiven then named es
      else .ok (fromEnvironment env "GREMLIN_URL") := by
  obtain ⟨hurl, -, -, hsecure, -⟩ := eq_of_ofValue h
  have hgives := gives_of_ofValue h
  cases hgiven : (field "url" es).isGiven with
  | true =>
      have hset : s.url = field "url" es := hgives.url hgiven
      simp only [resolveUrl, named, hset, hgiven, if_true, Bool.true_or]
  | false =>
      rw [orElse_not_given hgiven] at hurl
      obtain ⟨hhost, hport⟩ := hnames.resolve_left (by rw [hgiven]; decide)
      cases henv : (fromEnvironment env "GREMLIN_URL").isGiven with
      | true =>
          simp only [resolveUrl, hurl, henv, if_true]
          rfl
      | false =>
          simp only [resolveUrl, named, hurl, henv, hgiven, hgives.host hhost,
            hhost, hgives.port hport, hsecure]
          rfl

/-- What a mapping says does not change with the environment, and nothing
depends on the variables of what it does say. If it names where to connect,
then that is where settings from it connect to, unless it names a host and a
port only, and the environment has a URL. -/
theorem explicit_settings_win (es : Entries) :
    (∀ env env', AgreeBeyond es env env' →
      ofValue env (.map es) = ofValue env' (.map es)) ∧
    (∀ env s, ofValue env (.map es) = .ok s → Gives es s) ∧
    (Names es → ∀ env s, ofValue env (.map es) = .ok s → s.resolveUrl =
      if (field "url" es).isGiven ||
        !(fromEnvironment env "GREMLIN_URL").isGiven then named es
      else .ok (fromEnvironment env "GREMLIN_URL")) :=
  ⟨fun _ _ => ofValue_congr, fun _ _ => gives_of_ofValue, fun hnames _ _ =>
    resolveUrl_named hnames⟩

/-- A host and a port. -/
def sampleMapping : Entries :=
  [(.text "host", .text "db"), (.text "port", .int 9000)]

theorem explicit_settings_win_sample :
    (∃ s, ofValue [] (.map sampleMapping) = .ok s ∧
      s.resolveUrl = .ok (.text "wss://db:9000/gremlin")) ∧
    ∃ s, ofValue [("GREMLIN_URL", "ws://other:8182/gremlin")] (.map
      sampleMapping) = .ok s ∧
      s.resolveUrl = .ok (.text "ws://other:8182/gremlin") := by
  obtain ⟨-, -, hresolve⟩ := explicit_settings_win sampleMapping
  have hnames : Names sampleMapping := .inr ⟨rfl, rfl⟩
  have hnamed : named sampleMapping = .ok (.text "wss://db:9000/gremlin") := by
    rfl
  refine ⟨?_, ?_⟩
  · obtain ⟨s, hs⟩ := exists_of_isOk (r := ofValue [] (.map sampleMapping)) rfl
    exact ⟨s, hs, (hresolve hnames _ s hs).trans hnamed⟩
  · obtain ⟨s, hs⟩ := exists_of_isOk
      (r := ofValue [("GREMLIN_URL", "ws://other:8182/gremlin")]
        (.map sampleMapping)) rfl
    exact ⟨s, hs, hresolve hnames _ s hs⟩

end Settings

end GraphMapper
