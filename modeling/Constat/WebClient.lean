import Constat.Authorization
import Constat.Lib.Simulation

/-!
# WebClient

The web application in front of the API: the pages of `apps/web/app`, rendered on the web server, the
buttons and the export link in the browser, `fetchJson` of `lib/api.ts`, and the proxy route
`app/api/proxy/[...path]/route.ts`, which adds the API key to what the browser asks for.

* `handle`   — the proxy: what it sends upstream, or its refusal.
* `Page.calls`, `Action.calls` — what the pages and the browser ask of the API.
* `step`     — the tenants and the answers after an action of the operator.
* `Told`     — the browser is refused by the proxy, and a page by an API that asks for keys.

The prefixes the proxy allows begin with a slash, and the path it compares with them does not.
-/

namespace Constat

namespace WebClient

open Access
open ApiKeys (Settings)
open Idempotency (HttpException)
open Simulation (final answers)

/-! ## The proxy -/

def allowedMethods : List String := ["GET", "POST", "PATCH", "PUT", "DELETE", "OPTIONS"]

def allowedPrefixes : List String :=
  ["/health", "/insights", "/inconclusives", "/insight-runs", "/accounts", "/status",
    "/chargeback", "/admin", "/collect", "/retention"]

def methodText : Method → String
  | .get => "GET"
  | .post => "POST"
  | .patch => "PATCH"
  | .delete => "DELETE"

/-- What the route handler reads of a request; `path` is the catch-all parameter. -/
structure Incoming where
  method : Method
  path : List String
  contentType : Option String

/-- What it sends to the API. -/
structure Upstream where
  method : Method
  path : String
  apiKey : String
  contentType : Option String

structure ProxyError where
  status : Nat
  error : String
  field : String × String
deriving DecidableEq

def misconfigured : ProxyError :=
  ⟨503, "proxy_misconfigured", ("detail",
    "CONSTAT_API_KEY is unset on the web server. Set it in the deploy env. " ++
    "The browser never has the key; this proxy injects it server-side.")⟩

def pathNotAllowed (pathStr : String) : ProxyError :=
  ⟨404, "proxy_path_not_allowed", ("path", pathStr)⟩

def startsWith (s start : String) : Bool := start.toList.isPrefixOf s.toList

def includes (s sub : String) : Bool := Py.contains sub.toList s.toList

def allowed (pathStr : String) : Bool :=
  allowedPrefixes.any fun p => decide (pathStr = p) || startsWith pathStr (p ++ "/")

def bodyAllowed (contentType : String) : Bool :=
  includes contentType "application/json" || includes contentType "application/octet-stream" ||
    decide (contentType = "")

/-- An empty key counts as none. -/
def handle (key : Option String) (r : Incoming) : Except ProxyError Upstream :=
  match key.filter fun key => key ≠ "" with
  | none => .error misconfigured
  | some key =>
    let pathStr := "/".intercalate r.path
    if !allowed pathStr then .error (pathNotAllowed pathStr)
    else if methodText r.method ∉ allowedMethods then
      .error ⟨405, "method_not_allowed", ("method", methodText r.method)⟩
    else if r.method = .get then .ok ⟨r.method, "/" ++ pathStr, key, none⟩
    else if bodyAllowed (r.contentType.getD "") then
      .ok ⟨r.method, "/" ++ pathStr, key, some (r.contentType.getD "application/json")⟩
    else .error ⟨415, "proxy_content_type_not_allowed", ("contentType", r.contentType.getD "")⟩

/-! ## The pages and the browser -/

/-- A request of the client; `query` has the names of the parameters that have a value. -/
structure Call where
  method : Method
  path : List String
  query : List String
deriving DecidableEq

/-- A part of a path. -/
def PathPart : Type := { text : String // text ≠ "" ∧ '/' ∉ text.toList }

inductive Page where
  | home
  | insights
  | insight (id : PathPart)
  | inbox
  | inconclusives
  | insightRuns
  | chargeback
  | accounts
  | status
  | restitution

def listing (path : String) (query : List String) : Call := ⟨.get, [path], query⟩

/-- What a page asks of the API while it is rendered. -/
def Page.calls : Page → List Call
  | .home => [listing "inconclusives" ["limit"]]
  | .insights => [listing "insights" ["limit"], listing "inconclusives" ["limit"]]
  | .insight id => [⟨.get, ["insights", id.1], []⟩]
  | .inbox => List.replicate 3 (listing "insights" ["ack_status", "limit"])
  | .inconclusives => [listing "inconclusives" ["limit"]]
  | .insightRuns => [listing "insight-runs" ["limit"]]
  | .chargeback => [listing "insights" ["rule_name", "limit"], ⟨.get, ["focus", "coverage"], []⟩]
  | .accounts => [listing "accounts" ["limit"]]
  | .status => [listing "status" []]
  | .restitution => [listing "insights" ["limit"], listing "inconclusives" ["limit"],
      listing "insights" ["rule_name", "limit"], listing "accounts" [], listing "status" []]

/-- `ack` is a click on a button of the inbox, `exportCsv` on the link of the insights page. -/
inductive Action where
  | visit (page : Page)
  | ack (id : Uuid)
  | exportCsv

def Action.calls : Action → List Call
  | .visit page => page.calls
  | .ack id => [⟨.patch, ["insights", Uuid.text id], []⟩]
  | .exportCsv => [⟨.get, ["insights", "export.csv"], ["limit"]⟩]

def Action.fromBrowser : Action → Bool
  | .visit _ => false
  | _ => true

/-- `fetchJson` sets the content type; a link does not. -/
def Action.contentType : Action → Option String
  | .exportCsv => none
  | _ => some "application/json"

/-! ## The system -/

/-- An action of an operator, what else its requests carry, and whether their attribution fails. -/
structure Event (β : Type) where
  action : Action
  content : Call → β
  auditFails : Call → Bool

inductive Answer (ρ : Type) where
  | api (answer : Except HttpException ρ)
  | proxy (e : ProxyError)

/-- `key` is CONSTAT_API_KEY of the web server, `settings` those of the API, and `parts` how the URL
of a forwarded request is taken apart. -/
structure Deployment where
  key : Option String
  settings : Settings
  parts : String → List String

variable {β ρ : Type}

def request (e : Event β) (key : Option String) (c : Call) (path : List String) : Request β :=
  ⟨false, key, c.method, path, c.query, e.content c, e.auditFails c⟩

/-- `fetchJson`: a page asks the API itself, without a key; the browser asks the proxy. -/
def send (d : Deployment) (h : Handlers β ρ) (e : Event β) (s : Tenants) (c : Call) :
    Tenants × Answer ρ :=
  if e.action.fromBrowser then
    match handle d.key ⟨c.method, c.path, e.action.contentType⟩ with
    | .error refused => (s, .proxy refused)
    | .ok up =>
      let out := respond d.settings h s (request e (some up.apiKey) c (d.parts up.path))
      (out.1, .api out.2)
  else
    let out := respond d.settings h s (request e none c c.path)
    (out.1, .api out.2)

def step (d : Deployment) (h : Handlers β ρ) (s : Tenants) (e : Event β) :
    Tenants × List (Answer ρ) :=
  (final (send d h e) s e.action.calls, answers (send d h e) s e.action.calls)

/-! ## What is refused -/

/-- A path without a slash in front is not allowed. -/
theorem allowed_slash {pathStr : String} (h : allowed pathStr = true) :
    pathStr.toList.head? = some '/' := by
  have hslash : ∀ p ∈ allowedPrefixes, p.toList.head? = some '/' := by decide
  obtain ⟨p, hp, hfits⟩ := List.any_eq_true.1 h
  rw [Bool.or_eq_true, decide_eq_true_eq] at hfits
  rcases hfits with rfl | hstart
  · exact hslash _ hp
  · obtain ⟨rest, hrest⟩ := List.isPrefixOf_iff_prefix.1 hstart
    rw [← hrest, String.toList_append, List.append_assoc]
    have hp' := hslash p hp
    cases hchars : p.toList with
    | nil => simp [hchars] at hp'
    | cons c cs => simpa [hchars] using hp'

theorem head?_intercalate {part : String} {rest : List String} (hpart : part ≠ "") :
    ("/".intercalate (part :: rest)).toList.head? = part.toList.head? := by
  obtain ⟨c, cs, hchars⟩ := List.exists_cons_of_ne_nil fun h => hpart (String.toList_eq_nil_iff.1 h)
  cases rest with
  | nil => simp [hchars]
  | cons r rest => simp [hchars]

/-- The answer of the proxy to every request of the browser. -/
def refusal (d : Deployment) (c : Call) : ProxyError :=
  match d.key.filter fun key => key ≠ "" with
  | none => misconfigured
  | some _ => pathNotAllowed ("/".intercalate c.path)

theorem handle_refused (d : Deployment) (c : Call) (contentType : Option String) {part : String}
    {rest : List String} (hpath : c.path = part :: rest) (hpart : part ≠ "")
    (hslash : '/' ∉ part.toList) :
    handle d.key ⟨c.method, c.path, contentType⟩ = .error (refusal d c) := by
  have hrefused : allowed ("/".intercalate c.path) = false := by
    rw [Bool.eq_false_iff]
    intro hallowed
    have hhead := allowed_slash hallowed
    rw [hpath, head?_intercalate hpart] at hhead
    exact hslash (List.mem_of_head? hhead)
  unfold handle refusal
  cases d.key.filter fun key => key ≠ "" with
  | none => rfl
  | some key => simp [hrefused]

/-- Every request of the browser has a part without a slash in front. -/
theorem browser_refused (d : Deployment) {a : Action} (ha : a.fromBrowser = true) {c : Call}
    (hc : c ∈ a.calls) :
    handle d.key ⟨c.method, c.path, a.contentType⟩ = .error (refusal d c) := by
  cases a with
  | visit page => cases ha
  | ack id =>
    rw [Action.calls, List.mem_singleton] at hc
    subst hc
    exact handle_refused d _ _ rfl (by decide) (by decide)
  | exportCsv =>
    rw [Action.calls, List.mem_singleton] at hc
    subst hc
    exact handle_refused d _ _ rfl (by decide) (by decide)

/-- A page asks for what takes any key, and changes nothing. -/
structure PageCall (c : Call) : Prop where
  get : c.method = .get
  guarded : ∃ route, resolve c.method c.path = .ok route ∧ route.endpoint.guard = .anyKey

theorem insight_pageCall (id : PathPart) : PageCall ⟨.get, ["insights", id.1], []⟩ := by
  refine ⟨rfl, ?_⟩
  obtain ⟨text, hne, _⟩ := id
  by_cases hhistory : text = "history"
  · subst hhistory
    exact ⟨_, rfl, rfl⟩
  · by_cases hexport : text = "export.csv"
    · subst hexport
      exact ⟨_, rfl, rfl⟩
    · refine ⟨⟨.get, [.lit "insights", .param], .getInsight⟩, ?_, rfl⟩
      simp [resolve, routes, fits, Segment.fits, hne, hhistory, hexport]

theorem listing_pageCall {path : String} (query : List String)
    (hpath : path ∈ ["insights", "inconclusives", "insight-runs", "accounts", "status"]) :
    PageCall (listing path query) := by
  have hall : ∀ path ∈ ["insights", "inconclusives", "insight-runs", "accounts", "status"],
      ∃ route ∈ routes, resolve .get [path] = .ok route ∧ route.endpoint.guard = .anyKey := by
    decide
  obtain ⟨route, _, hroute⟩ := hall path hpath
  exact ⟨rfl, route, hroute⟩

theorem pageCall_of_mem {page : Page} {c : Call} (hc : c ∈ page.calls) : PageCall c := by
  cases page with
  | insight id =>
    rw [Page.calls, List.mem_singleton] at hc
    exact hc ▸ insight_pageCall id
  | inbox =>
    obtain ⟨_, rfl⟩ := List.mem_replicate.1 hc
    exact listing_pageCall _ (by decide)
  | chargeback =>
    simp only [Page.calls, List.mem_cons, List.not_mem_nil, or_false] at hc
    rcases hc with rfl | rfl
    · exact listing_pageCall _ (by decide)
    · exact ⟨rfl, _, rfl, rfl⟩
  | _ =>
    simp only [Page.calls, List.mem_cons, List.not_mem_nil, or_false] at hc
    repeat' rcases hc with rfl | hc
    all_goals exact listing_pageCall _ (by decide)

/-! ## What the operator is told -/

/-- The browser is refused by the proxy; where the API asks for keys, so is every page by it. -/
structure Told (d : Deployment) (e : Event β) (as : List (Answer ρ)) : Prop where
  refused : e.action.fromBrowser = true →
    as = e.action.calls.map fun c => .proxy (refusal d c)
  locked : e.action.fromBrowser = false → d.settings.allApiKeyEntries.isEmpty = false →
    as = e.action.calls.map fun _ => .api (.error ⟨401, "X-API-Key header is required"⟩)

section

variable {d : Deployment} {h : Handlers β ρ} {e : Event β} {s : Tenants} {c : Call}

theorem send_browser (hbrowser : e.action.fromBrowser = true) (hc : c ∈ e.action.calls) :
    send d h e s c = (s, .proxy (refusal d c)) := by
  rw [send, if_pos hbrowser, browser_refused d hbrowser hc]

theorem send_locked (hserver : e.action.fromBrowser = false)
    (hkeys : d.settings.allApiKeyEntries.isEmpty = false) (hc : PageCall c) :
    send d h e s c = (s, .api (.error ⟨401, "X-API-Key header is required"⟩)) := by
  obtain ⟨route, hroute, hguard⟩ := hc.guarded
  have hadmission : admission d.settings (request e none c c.path) =
      .error ⟨401, "X-API-Key header is required"⟩ := by
    simp [admission, request, hroute, hguard, Guard.check, verifyApiKey, hkeys, Except.map]
  rw [send, hserver]
  simp only [Bool.false_eq_true, if_false, respond, hadmission]

theorem send_reads (hserver : e.action.fromBrowser = false) (hc : PageCall c) (tenant : Uuid) :
    OnlyReads (s tenant) ((send d h e s c).1 tenant) := by
  rw [send, hserver]
  refine onlyReads_step h s fun hauthorized => ?_
  exact hauthorized.2.1 hc.get

/-- A run of requests that are all answered alike and change nothing. -/
theorem run_unchanged {f : Tenants → Call → Tenants × Answer ρ} {a : Call → Answer ρ}
    {cs : List Call} (hf : ∀ c ∈ cs, ∀ s, f s c = (s, a c)) (s : Tenants) :
    final f s cs = s ∧ answers f s cs = cs.map a := by
  induction cs with
  | nil => exact ⟨rfl, rfl⟩
  | cons c cs ih =>
    rw [List.forall_mem_cons] at hf
    obtain ⟨hend, hanswers⟩ := ih hf.2
    rw [Simulation.final_cons, answers, hf.1, hend, hanswers, List.map_cons]
    exact ⟨rfl, rfl⟩

theorem step_told (d : Deployment) (h : Handlers β ρ) (s : Tenants) (e : Event β) :
    Told d e (step d h s e).2 ∧ (∀ tenant, OnlyReads (s tenant) ((step d h s e).1 tenant)) ∧
      (d.settings.allApiKeyEntries.isEmpty = false → (step d h s e).1 = s) := by
  cases hside : e.action.fromBrowser with
  | true =>
    have hsend : ∀ c ∈ e.action.calls, ∀ s, send d h e s c = (s, .proxy (refusal d c)) :=
      fun c hc s => send_browser hside hc
    obtain ⟨hend, hanswers⟩ := run_unchanged hsend s
    refine ⟨⟨fun _ => hanswers, fun hserver => ?_⟩, fun tenant => ?_, fun _ => hend⟩
    · exact absurd (hside.symm.trans hserver) (by decide)
    · rw [step, hend]
      exact OnlyReads.refl _
  | false =>
    have hpage : ∀ c ∈ e.action.calls, PageCall c := by
      intro c hc
      cases haction : e.action with
      | visit page =>
        rw [haction] at hc
        exact pageCall_of_mem hc
      | ack id => simp [haction, Action.fromBrowser] at hside
      | exportCsv => simp [haction, Action.fromBrowser] at hside
    refine ⟨⟨fun hbrowser => ?_, fun _ hkeys => ?_⟩, fun tenant => ?_, fun hkeys => ?_⟩
    · exact absurd (hside.symm.trans hbrowser) (by decide)
    · exact (run_unchanged (fun c hc s => send_locked hside hkeys (hpage c hc)) s).2
    · rw [step]
      generalize e.action.calls = cs at hpage
      induction cs generalizing s with
      | nil => exact OnlyReads.refl _
      | cons c cs ih =>
        rw [List.forall_mem_cons] at hpage
        rw [Simulation.final_cons]
        exact (send_reads hside hpage.1 tenant).trans (ih _ hpage.2)
    · exact (run_unchanged (fun c hc s => send_locked hside hkeys (hpage c hc)) s).1

end

/-- **The web application writes nothing**: whatever the operator does, in whatever order, and
however the API is configured, each acknowledgement and each export is refused by the proxy and
never sent upstream, and no tenant changes but for the events of the reads. Where the API asks for
keys, every page is refused as well and nothing changes at all. -/
theorem web_writes_nothing (d : Deployment) (h : Handlers β ρ) (es : List (Event β))
    (s : Tenants) :
    List.Forall₂ (Told d) es (answers (step d h) s es) ∧
      (∀ tenant, OnlyReads (s tenant) (final (step d h) s es tenant)) ∧
      (d.settings.allApiKeyEntries.isEmpty = false → final (step d h) s es = s) := by
  induction es generalizing s with
  | nil => exact ⟨.nil, fun _ => OnlyReads.refl _, fun _ => rfl⟩
  | cons e es ih =>
    obtain ⟨htold, hreads, hlocked⟩ := step_told d h s e
    obtain ⟨htold', hreads', hlocked'⟩ := ih (step d h s e).1
    refine ⟨.cons htold htold', fun tenant => (hreads tenant).trans (hreads' tenant), ?_⟩
    intro hkeys
    rw [Simulation.final_cons, hlocked' hkeys, hlocked hkeys]

end WebClient

end Constat
