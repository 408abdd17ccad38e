import Constat.Focus.Ingest
import Constat.Lib.DictLoop

/-!
# Focus.ServiceNames

`service_catalog.py`: the catalog an ingest resolves its service names in, read from a YAML file.
The tree `yaml.safe_load` builds is a `Json` tree: the file has neither dates nor keys that are not
text. The native names of one provider go through a `frozenset`, which iterates in any order.

* `catalog_loads_iff` — which trees load, and what the loaded catalog resolves: whatever the order
  of the sets, it is refused exactly when an entry is malformed or two canonical names share a
  native name but for case.
* `extends_of_grown`  — a later file that says all an earlier one says loads to a catalog that
  extends it, as `Reingest` asks of the later catalog.
-/

namespace Constat

namespace Focus

/-- `type(value).__name__`. -/
def typeName : Json → String
  | .null => "NoneType"
  | .bool _ => "bool"
  | .int _ => "int"
  | .float _ => "float"
  | .str _ => "str"
  | .list _ => "list"
  | .obj _ => "dict"

def valueError (msg : String) : PyError := ⟨"ValueError", msg⟩

/-! ## Sets of names -/

/-- How a `frozenset` of a list iterates. Equal numbers are one member. -/
structure SetOrder where
  iter : List Json → List Json
  strings : ∀ l s, Json.str s ∈ iter l ↔ Json.str s ∈ l
  others : ∀ l, (∃ x ∈ iter l, ∀ s, x ≠ .str s) ↔ ∃ x ∈ l, ∀ s, x ≠ .str s

def SetOrder.insertion : SetOrder := ⟨id, fun _ _ => .rfl, fun _ => .rfl⟩

instance : Inhabited SetOrder := ⟨SetOrder.insertion⟩

def hashable : Json → Bool
  | .list _ | .obj _ => false
  | _ => true

def frozenset (order : SetOrder) (names : List Json) : Except PyError (List Json) :=
  match names.find? fun x => !hashable x with
  | some x => .error ⟨"TypeError", "unhashable type: '" ++ typeName x ++ "'"⟩
  | none => .ok (order.iter names)

/-! ## Mappings -/

/-- `providers` holds the native names in the order their set iterates. -/
structure ServiceMapping where
  canonical : String
  category : Json
  providers : List (String × List Json)
  named : canonical ≠ ""

def parseNames (order : SetOrder) (provider : String × Json) :
    Except PyError (String × List Json) :=
  match provider.2 with
  | .list names => (frozenset order names).map fun names => (provider.1, names)
  | other => .error (valueError ("service catalog: providers." ++ provider.1 ++
      " must be a list, got " ++ typeName other))

def parseProviders (order : SetOrder) : Json → Except PyError (List (String × List Json))
  | .obj providers => providers.mapM (parseNames order)
  | other => .error (valueError ("service catalog: 'providers' must be a mapping, got " ++
      typeName other))

def needsCanonical (entry : Json) : PyError :=
  valueError ("service catalog: each entry needs a 'canonical' string, got " ++ Py.repr entry)

def parseEntry (order : SetOrder) (entry : Json) : Except PyError ServiceMapping :=
  match entry with
  | .obj fields =>
    match Json.get? fields "canonical" with
    | some (.str canonical) =>
      if named : canonical ≠ "" then
        (parseProviders order ((Json.get? fields "providers").getD (.obj []))).map fun providers =>
          ⟨canonical, (Json.get? fields "category").getD (.str ""), providers, named⟩
      else .error (needsCanonical entry)
    | _ => .error (needsCanonical entry)
  | other => .error (valueError ("service catalog: each entry must be a mapping, got " ++
      typeName other))

/-! ## The catalog -/

/-- A native name of a mapping, as the loops of `ServiceCatalog.__init__` come to it. -/
structure Native where
  mapping : ServiceMapping
  provider : String
  name : Json

def natives (mappings : List ServiceMapping) : List Native :=
  mappings.flatMap fun m => m.providers.flatMap fun p => p.2.map fun name => ⟨m, p.1, name⟩

/-- `(provider, name.lower())`. -/
def Native.key (lower : String → String) (n : Native) : Except PyError (String × String) :=
  match n.name with
  | .str name => .ok (n.provider, lower name)
  | other => .error ⟨"AttributeError", "'" ++ typeName other ++ "' object has no attribute 'lower'"⟩

def clash (n : Native) (earlier : String) : PyError :=
  valueError ("service catalog: (" ++ Py.reprStr n.provider ++ ", " ++ Py.repr n.name ++
    ") is mapped to both " ++ Py.reprStr earlier ++ " and " ++ Py.reprStr n.mapping.canonical ++
    "; each native name must belong to one canonical")

def nativeIndex (lower : String → String) (mappings : List ServiceMapping) :
    Except PyError (Dict (String × String) String) :=
  Dict.onceM (Native.key lower) (·.mapping.canonical) clash (natives mappings) .empty

theorem named_nativeIndex {lower : String → String} {mappings : List ServiceMapping}
    {d : Dict (String × String) String} (h : nativeIndex lower mappings = .ok d) :
    ∀ p ∈ d.items, p.2 ≠ "" := by
  intro p hp
  rcases (Dict.get?_onceM h p.1 p.2).1 (Dict.mem_items.1 hp) with ⟨n, _, _, hn⟩ | hempty
  · rw [← hn]
    exact n.mapping.named
  · cases hempty

/-- `ServiceCatalog.__init__`. -/
def ServiceCatalog.init (lower : String → String) (mappings : List ServiceMapping) :
    Except PyError ServiceCatalog :=
  match h : nativeIndex lower mappings with
  | .error e => .error e
  | .ok d => .ok ⟨d, named_nativeIndex h⟩

/-- `for entry in raw["services"]`: a mapping iterates over its keys and a text over its
characters. -/
def iterate : Json → Except PyError (List Json)
  | .list xs => .ok xs
  | .obj fields => .ok (fields.map fun p => .str p.1)
  | .str s => .ok (s.toList.map fun c => .str (String.ofList [c]))
  | other => .error ⟨"TypeError", "'" ++ typeName other ++ "' object is not iterable"⟩

def malformed (dataPath : String) (raw : Json) : PyError :=
  valueError ("FOCUS service catalog at " ++ dataPath ++
    " is malformed: expected a top-level 'services' key, got " ++ typeName raw)

def servicesOf (dataPath : String) (raw : Json) : Except PyError (List Json) :=
  match raw with
  | .obj fields =>
    match Json.get? fields "services" with
    | some services => iterate services
    | none => .error (malformed dataPath raw)
  | _ => .error (malformed dataPath raw)

def loadCatalog (lower : String → String) (order : SetOrder) (dataPath : String) (raw : Json) :
    Except PyError ServiceCatalog :=
  match servicesOf dataPath raw with
  | .error e => .error e
  | .ok entries =>
    match entries.mapM (parseEntry order) with
    | .error e => .error e
    | .ok mappings => ServiceCatalog.init lower mappings

/-! ## What a file says -/

/-- Names are texts, by provider. -/
def ProviderNames (providers : Json) (names : List (String × List String)) : Prop :=
  providers = .obj (names.map fun p => (p.1, .list (p.2.map .str)))

structure WellFormed (entry : Json) (canonical : String)
    (names : List (String × List String)) : Prop where
  canonical_ne : canonical ≠ ""
  entry_eq : ∃ fields, entry = .obj fields ∧
    Json.get? fields "canonical" = some (.str canonical) ∧
    ProviderNames ((Json.get? fields "providers").getD (.obj [])) names

/-- Some entry puts the native name of the provider under the canonical name. -/
def Says (entries : List Json) (provider native canonical : String) : Prop :=
  ∃ entry ∈ entries, ∃ names, WellFormed entry canonical names ∧
    ∃ p ∈ names, p.1 = provider ∧ native ∈ p.2

/-- Every entry is well formed, and native names that differ in case only are under one canonical
name. -/
structure Loadable (lower : String → String) (entries : List Json) : Prop where
  entries_ok : ∀ entry ∈ entries, ∃ canonical names, WellFormed entry canonical names
  one_canonical : ∀ provider n n' c c', Says entries provider n c → Says entries provider n' c' →
    lower n = lower n' → c = c'

/-! ## Entries -/

section

variable {order : SetOrder} {entry : Json} {m : ServiceMapping} {canonical : String}
  {names : List (String × List String)}

def IsText (x : Json) : Prop := ∃ s, x = .str s

theorem isText_iter {l : List Json} : (∀ x ∈ order.iter l, IsText x) ↔ ∀ x ∈ l, IsText x := by
  have h := not_congr (order.others l)
  push Not at h
  exact h

theorem texts_eq_map : ∀ {l : List Json}, (∀ x ∈ l, IsText x) → ∃ ss : List String, l = ss.map .str
  | [], _ => ⟨[], rfl⟩
  | x :: l, h => by
    rw [List.forall_mem_cons] at h
    obtain ⟨⟨s, rfl⟩, hl⟩ := h
    obtain ⟨ss, rfl⟩ := texts_eq_map hl
    exact ⟨s :: ss, rfl⟩

theorem frozenset_ok {xs ys : List Json} (h : frozenset order xs = .ok ys) : ys = order.iter xs := by
  unfold frozenset at h
  split at h
  · cases h
  · cases h
    rfl

theorem frozenset_texts (ss : List String) :
    frozenset order (ss.map .str) = .ok (order.iter (ss.map .str)) := by
  have hnone : (ss.map Json.str).find? (fun x => !hashable x) = none := by
    rw [List.find?_eq_none]
    intro x hx
    obtain ⟨s, _, rfl⟩ := List.mem_map.1 hx
    simp [hashable]
  rw [frozenset, hnone]

theorem parseNames_texts (provider : String) (ss : List String) :
    parseNames order (provider, .list (ss.map .str)) =
      .ok (provider, order.iter (ss.map .str)) := by
  rw [parseNames]
  simp only [frozenset_texts]
  rfl

theorem parseNames_ok {p : String × Json} {q : String × List Json}
    (h : parseNames order p = .ok q) (htexts : ∀ x ∈ q.2, IsText x) :
    ∃ ss : List String, p = (p.1, .list (ss.map .str)) := by
  obtain ⟨provider, value⟩ := p
  cases value with
  | list xs =>
    simp only [parseNames] at h
    cases hset : frozenset order xs with
    | error e =>
      rw [hset] at h
      cases h
    | ok ys =>
      rw [hset] at h
      cases h
      rw [frozenset_ok hset] at htexts
      obtain ⟨ss, rfl⟩ := texts_eq_map (isText_iter.1 htexts)
      exact ⟨ss, rfl⟩
  | _ => cases h

theorem parseProviders_names {providers : Json} (h : ProviderNames providers names) :
    parseProviders order providers =
      .ok (names.map fun p => (p.1, order.iter (p.2.map .str))) := by
  rw [ProviderNames] at h
  subst h
  rw [parseProviders]
  induction names with
  | nil => rfl
  | cons p names ih =>
    simp only [List.map_cons, List.mapM_cons, parseNames_texts, ih, bind, Except.bind, pure,
      Except.pure]

theorem names_of_parseProviders {providers : Json} {qs : List (String × List Json)}
    (h : parseProviders order providers = .ok qs) (htexts : ∀ q ∈ qs, ∀ x ∈ q.2, IsText x) :
    ∃ names, ProviderNames providers names := by
  cases providers with
  | obj ps =>
    have hall := Loop.mapM_ok h
    clear h
    induction hall with
    | nil => exact ⟨[], rfl⟩
    | @cons p q ps qs hp _ ih =>
      rw [List.forall_mem_cons] at htexts
      obtain ⟨ss, hss⟩ := parseNames_ok hp htexts.1
      obtain ⟨names, hnames⟩ := ih htexts.2
      rw [ProviderNames, Json.obj.injEq] at hnames
      refine ⟨(p.1, ss) :: names, ?_⟩
      rw [ProviderNames, List.map_cons, ← hnames, ← hss]
  | _ => cases h

/-- What a well-formed entry is read as. -/
theorem parseEntry_wellFormed (order : SetOrder) (h : WellFormed entry canonical names) :
    ∃ m, parseEntry order entry = .ok m ∧ m.canonical = canonical ∧
      m.providers = names.map fun p => (p.1, order.iter (p.2.map .str)) := by
  obtain ⟨fields, rfl, hcanonical, hproviders⟩ := h.entry_eq
  refine ⟨⟨canonical, (Json.get? fields "category").getD (.str ""), _, h.canonical_ne⟩, ?_, rfl, rfl⟩
  simp only [parseEntry, hcanonical, h.canonical_ne, ne_eq, not_false_eq_true, dite_true,
    parseProviders_names hproviders, Except.map]

/-- An entry that is read, with texts for names, is well formed. -/
theorem wellFormed_of_parseEntry (h : parseEntry order entry = .ok m)
    (htexts : ∀ p ∈ m.providers, ∀ x ∈ p.2, IsText x) :
    ∃ names, WellFormed entry m.canonical names := by
  cases entry with
  | obj fields =>
    simp only [parseEntry] at h
    split at h
    · rename_i canonical hcanonical
      split at h
      · rename_i hne
        cases hparse : parseProviders order ((Json.get? fields "providers").getD (.obj [])) with
        | error e =>
          rw [hparse] at h
          cases h
        | ok qs =>
          rw [hparse] at h
          cases h
          obtain ⟨names, hnames⟩ := names_of_parseProviders hparse htexts
          exact ⟨names, hne, fields, rfl, hcanonical, hnames⟩
      · cases h
    · cases h
  | _ => cases h

end

/-! ## Natives -/

section

variable {lower : String → String} {order : SetOrder} {entries : List Json}
  {mappings : List ServiceMapping}

theorem mem_natives {n : Native} : n ∈ natives mappings ↔
    n.mapping ∈ mappings ∧ ∃ p ∈ n.mapping.providers, p.1 = n.provider ∧ n.name ∈ p.2 := by
  simp only [natives, List.mem_flatMap, List.mem_map]
  constructor
  · rintro ⟨m, hm, p, hp, name, hname, rfl⟩
    exact ⟨hm, p, hp, rfl, hname⟩
  · rintro ⟨hm, p, hp, hprovider, hname⟩
    exact ⟨n.mapping, hm, p, hp, n.name, hname, by rw [hprovider]⟩

theorem key_ok {n : Native} {k : String × String} : n.key lower = .ok k ↔
    ∃ s, n.name = .str s ∧ (n.provider, lower s) = k := by
  unfold Native.key
  cases n.name <;> simp

/-- The mappings were read from the entries, all of whose names are texts. -/
structure Read (order : SetOrder) (entries : List Json) (mappings : List ServiceMapping) : Prop where
  parsed : List.Forall₂ (fun e m => parseEntry order e = .ok m) entries mappings
  texts : ∀ m ∈ mappings, ∀ p ∈ m.providers, ∀ x ∈ p.2, IsText x

theorem Read.wellFormed (h : Read order entries mappings) {entry : Json} (he : entry ∈ entries) :
    ∃ canonical names, WellFormed entry canonical names := by
  obtain ⟨m, hm, hparse⟩ := Loop.exists_right h.parsed he
  obtain ⟨names, hw⟩ := wellFormed_of_parseEntry hparse (h.texts m hm)
  exact ⟨m.canonical, names, hw⟩

/-- What the entries say is what the loops of the constructor come to. -/
theorem Read.says_iff (h : Read order entries mappings) {provider native canonical : String} :
    Says entries provider native canonical ↔
      ∃ n ∈ natives mappings, n.provider = provider ∧ n.name = .str native ∧
        n.mapping.canonical = canonical := by
  constructor
  · rintro ⟨entry, he, names, hw, p, hp, rfl, hnative⟩
    obtain ⟨m, hm, hparse⟩ := Loop.exists_right h.parsed he
    obtain ⟨m', hparse', hcanonical, hproviders⟩ := parseEntry_wellFormed order hw
    obtain rfl : m = m' := by rw [hparse] at hparse'; exact Except.ok.inj hparse'
    refine ⟨⟨m, p.1, .str native⟩, mem_natives.2 ⟨hm, ?_⟩, rfl, rfl, hcanonical⟩
    refine ⟨(p.1, order.iter (p.2.map .str)), ?_, rfl, ?_⟩
    · rw [hproviders]
      exact List.mem_map_of_mem hp
    · exact (order.strings _ _).2 (List.mem_map_of_mem hnative)
  · rintro ⟨n, hn, rfl, hname, rfl⟩
    obtain ⟨hm, q, hq, hprovider, hmem⟩ := mem_natives.1 hn
    obtain ⟨entry, he, hparse⟩ := Loop.exists_left h.parsed hm
    obtain ⟨names, hw⟩ := wellFormed_of_parseEntry hparse (h.texts _ hm)
    obtain ⟨m', hparse', _, hproviders⟩ := parseEntry_wellFormed order hw
    obtain rfl : n.mapping = m' := by rw [hparse] at hparse'; exact Except.ok.inj hparse'
    rw [hproviders] at hq
    obtain ⟨p, hp, rfl⟩ := List.mem_map.1 hq
    rw [hname, order.strings] at hmem
    obtain ⟨s, hs, hsn⟩ := List.mem_map.1 hmem
    cases hsn
    exact ⟨entry, he, names, hw, p, hp, hprovider, hs⟩

theorem init_ok {catalog : ServiceCatalog} :
    ServiceCatalog.init lower mappings = .ok catalog ↔
      nativeIndex lower mappings = .ok catalog.byNative := by
  unfold ServiceCatalog.init
  split
  · rename_i e he
    simp [he]
  · rename_i d hd
    obtain ⟨byNative, named⟩ := catalog
    simp [hd]

/-- The constructor accepts what is read exactly when no native name has two canonical ones. -/
theorem Read.loadable_iff (h : Read order entries mappings) :
    Dict.Agree (Native.key lower) (·.mapping.canonical) (natives mappings) .empty ↔
      Loadable lower entries := by
  constructor
  · intro hagree
    refine ⟨fun entry he => h.wellFormed he, ?_⟩
    intro provider n n' c c' hn hn' hlower
    obtain ⟨x, hx, rfl, hxn, rfl⟩ := h.says_iff.1 hn
    obtain ⟨y, hy, hprovider, hyn, rfl⟩ := h.says_iff.1 hn'
    obtain ⟨k, hk, hsame, _⟩ := hagree x hx
    obtain ⟨s, hs, rfl⟩ := key_ok.1 hk
    obtain rfl : n = s := by rw [hxn] at hs; exact Json.str.inj hs
    exact (hsame y hy (key_ok.2 ⟨n', hyn, by rw [hprovider, hlower]⟩)).symm
  · intro hload x hx
    obtain ⟨hm, p, hp, _, hmem⟩ := mem_natives.1 hx
    obtain ⟨s, hs⟩ := h.texts _ hm p hp _ hmem
    refine ⟨(x.provider, lower s), key_ok.2 ⟨s, hs, rfl⟩, ?_, fun u hu => by cases hu⟩
    intro y hy hyk
    obtain ⟨s', hs', hkey⟩ := key_ok.1 hyk
    rw [Prod.mk.injEq] at hkey
    exact hload.one_canonical x.provider s' s _ _
      (h.says_iff.2 ⟨y, hy, hkey.1, hs', rfl⟩) (h.says_iff.2 ⟨x, hx, rfl, hs, rfl⟩) hkey.2

end

/-! ## The load -/

section

variable {lower : String → String} {order : SetOrder} {dataPath : String} {raw : Json}
  {catalog : ServiceCatalog}

theorem loadCatalog_ok (h : loadCatalog lower order dataPath raw = .ok catalog) :
    ∃ entries mappings, servicesOf dataPath raw = .ok entries ∧ Read order entries mappings ∧
      nativeIndex lower mappings = .ok catalog.byNative := by
  unfold loadCatalog at h
  split at h
  · cases h
  · rename_i entries hentries
    split at h
    · cases h
    · rename_i mappings hmappings
      have hindex := init_ok.1 h
      refine ⟨entries, mappings, hentries, ⟨Loop.mapM_ok hmappings, ?_⟩, hindex⟩
      intro m hm p hp x hx
      obtain ⟨k, hk, _⟩ := Dict.exists_onceM.1 ⟨_, hindex⟩ ⟨m, p.1, x⟩
        (mem_natives.2 ⟨hm, p, hp, rfl, hx⟩)
      obtain ⟨s, hs, _⟩ := key_ok.1 hk
      exact ⟨s, hs⟩

/-- The reverse index holds what the entries say, in lower case. -/
theorem get?_loadCatalog (h : loadCatalog lower order dataPath raw = .ok catalog)
    {entries : List Json} (hentries : servicesOf dataPath raw = .ok entries)
    (provider key canonical : String) :
    catalog.byNative.get? (provider, key) = some canonical ↔
      ∃ native, lower native = key ∧ Says entries provider native canonical := by
  obtain ⟨entries', mappings, hentries', hread, hindex⟩ := loadCatalog_ok h
  obtain rfl : entries = entries' := by rw [hentries] at hentries'; exact Except.ok.inj hentries'
  rw [Dict.get?_onceM hindex, Dict.get?_empty]
  simp only [reduceCtorEq, or_false, hread.says_iff]
  constructor
  · rintro ⟨n, hn, hkey, hcanonical⟩
    obtain ⟨s, hs, hk⟩ := key_ok.1 hkey
    rw [Prod.mk.injEq] at hk
    exact ⟨s, hk.2, n, hn, hk.1, hs, hcanonical⟩
  · rintro ⟨native, rfl, n, hn, rfl, hname, hcanonical⟩
    exact ⟨n, hn, key_ok.2 ⟨native, hname, rfl⟩, hcanonical⟩

theorem exists_loadCatalog {entries : List Json} (hentries : servicesOf dataPath raw = .ok entries)
    (hload : Loadable lower entries) :
    ∃ catalog, loadCatalog lower order dataPath raw = .ok catalog := by
  have hparse : ∀ e ∈ entries, ∃ m, parseEntry order e = .ok m ∧
      (parseEntry order e = .ok m ∧ ∀ p ∈ m.providers, ∀ x ∈ p.2, IsText x) := by
    intro e he
    obtain ⟨canonical, names, hw⟩ := hload.entries_ok e he
    obtain ⟨m, hm, _, hproviders⟩ := parseEntry_wellFormed order hw
    refine ⟨m, hm, hm, ?_⟩
    rw [hproviders]
    intro q hq
    obtain ⟨p, _, rfl⟩ := List.mem_map.1 hq
    refine isText_iter.2 fun x hx => ?_
    obtain ⟨s, _, rfl⟩ := List.mem_map.1 hx
    exact ⟨s, rfl⟩
  obtain ⟨mappings, hmappings, hall⟩ := Loop.exists_mapM hparse
  have hread : Read order entries mappings := by
    refine ⟨Loop.mapM_ok hmappings, fun m hm => ?_⟩
    obtain ⟨_, _, _, htexts⟩ := Loop.exists_left hall hm
    exact htexts
  obtain ⟨d, hd⟩ := Dict.exists_onceM.2 (hread.loadable_iff.2 hload)
  have hinit : ServiceCatalog.init lower mappings = .ok ⟨d, named_nativeIndex hd⟩ := init_ok.2 hd
  refine ⟨⟨d, named_nativeIndex hd⟩, ?_⟩
  rw [loadCatalog, hentries]
  simp only [hmappings, hinit]

/-- A file loads exactly when it has entries to read, each is well formed, and no two put native
names that differ in case only under two canonical names; the order of the sets does not matter. A
native name then resolves to the canonical name some entry puts it under, whatever its case. -/
theorem catalog_loads_iff (lower : String → String) (order : SetOrder) (dataPath : String)
    (raw : Json) :
    ((∃ catalog, loadCatalog lower order dataPath raw = .ok catalog) ↔
      ∃ entries, servicesOf dataPath raw = .ok entries ∧ Loadable lower entries) ∧
    ∀ catalog entries, loadCatalog lower order dataPath raw = .ok catalog →
      servicesOf dataPath raw = .ok entries → ∀ provider native canonical,
        catalog.canonicalFor lower provider native = some canonical ↔
          ∃ native', lower native' = lower native ∧ Says entries provider native' canonical := by
  constructor
  · constructor
    · rintro ⟨catalog, h⟩
      obtain ⟨entries, mappings, hentries, hread, hindex⟩ := loadCatalog_ok h
      exact ⟨entries, hentries, hread.loadable_iff.1 (Dict.exists_onceM.1 ⟨_, hindex⟩)⟩
    · rintro ⟨entries, hentries, hload⟩
      exact exists_loadCatalog hentries hload
  · intro catalog entries h hentries provider native canonical
    exact get?_loadCatalog h hentries provider (lower native) canonical

def service (canonical name : String) : Json :=
  .obj [("canonical", .str canonical), ("providers", .obj [("aws", .list [.str name])])]

def servicesFile (services : List Json) : Json := .obj [("services", .list services)]

example : ((loadCatalog id .insertion "" (servicesFile [service "vm" "EC2", service "db" "RDS"])).map
    fun catalog => catalog.canonicalFor id "aws" "RDS") = .ok (some "db") := by
  decide

example : ((loadCatalog id .insertion "" (servicesFile [service "vm" "EC2", service "db" "EC2"])).map
    fun catalog => catalog.canonicalFor id "aws" "EC2") =
      .error (valueError ("service catalog: ('aws', 'EC2') is mapped to both 'vm' and 'db'; " ++
        "each native name must belong to one canonical")) := by
  decide

/-- A service added to the file keeps what the file resolved before. -/
theorem extends_of_grown {order' : SetOrder} {raw' : Json} {later : ServiceCatalog}
    {entries entries' : List Json} (h : loadCatalog lower order dataPath raw = .ok catalog)
    (h' : loadCatalog lower order' dataPath raw' = .ok later)
    (hentries : servicesOf dataPath raw = .ok entries)
    (hentries' : servicesOf dataPath raw' = .ok entries')
    (hgrown : ∀ provider native canonical, Says entries provider native canonical →
      Says entries' provider native canonical) : later.Extends catalog := by
  rintro ⟨provider, key⟩ canonical hget
  obtain ⟨native, hlower, hsaid⟩ := (get?_loadCatalog h hentries provider key canonical).1 hget
  exact (get?_loadCatalog h' hentries' provider key canonical).2
    ⟨native, hlower, hgrown provider native canonical hsaid⟩

end

end Focus

end Constat
