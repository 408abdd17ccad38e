import Mathlib.Data.List.Basic

/-!
# Lib.Loop

Loops that may raise: `foldlM` over a list in `Except`. A loop that returns has gone through all of
its list, so what each step keeps holds at its end (`keep`). Two loops whose bodies agree as long as
a forecast of the steps is good are the same loop as far as it is (`follow`).
-/

namespace Loop

variable {α β ε : Type} {f g : β → α → Except ε β}

theorem bind_ok {x : Except ε α} {k : α → Except ε β} {r : β} :
    x >>= k = .ok r ↔ ∃ a, x = .ok a ∧ k a = .ok r := by
  cases x <;> simp [bind, Except.bind]

theorem foldlM_cons_ok {a : α} {l : List α} {b r : β} :
    (a :: l).foldlM f b = .ok r ↔ ∃ b', f b a = .ok b' ∧ l.foldlM f b' = .ok r := by
  rw [List.foldlM_cons]
  exact bind_ok

/-- What each step keeps holds at the end of a loop that returns. -/
theorem keep (I : β → Prop) {l : List α} (hstep : ∀ a ∈ l, ∀ b b', I b → f b a = .ok b' → I b') :
    ∀ {b r : β}, I b → l.foldlM f b = .ok r → I r := by
  induction l with
  | nil => intro b r hb h; cases h; exact hb
  | cons a l ih =>
    intro b r hb h
    obtain ⟨b', ha, hl⟩ := foldlM_cons_ok.1 h
    exact ih (fun a' ha' => hstep a' (List.mem_cons_of_mem a ha'))
      (hstep a List.mem_cons_self b b' hb ha) hl

/-! ## Paired lists -/

theorem exists_left {R : α → β → Prop} {xs : List α} {ys : List β} (h : List.Forall₂ R xs ys)
    {y : β} (hy : y ∈ ys) : ∃ x ∈ xs, R x y := by
  induction h with
  | nil => cases hy
  | cons hx _ ih =>
    rcases List.mem_cons.1 hy with rfl | hy
    · exact ⟨_, List.mem_cons_self, hx⟩
    · obtain ⟨x, hmem, hR⟩ := ih hy
      exact ⟨x, List.mem_cons_of_mem _ hmem, hR⟩

theorem exists_right {R : α → β → Prop} {xs : List α} {ys : List β} (h : List.Forall₂ R xs ys)
    {x : α} (hx : x ∈ xs) : ∃ y ∈ ys, R x y := by
  induction h with
  | nil => cases hx
  | cons hy _ ih =>
    rcases List.mem_cons.1 hx with rfl | hx
    · exact ⟨_, List.mem_cons_self, hy⟩
    · obtain ⟨y, hmem, hR⟩ := ih hx
      exact ⟨y, List.mem_cons_of_mem _ hmem, hR⟩

/-! ## Mapping -/

theorem mapM_ok {f : α → Except ε β} {xs : List α} {ys : List β} (h : xs.mapM f = .ok ys) :
    List.Forall₂ (fun x y => f x = .ok y) xs ys := by
  induction xs generalizing ys with
  | nil =>
    rw [List.mapM_nil] at h
    cases h
    exact .nil
  | cons x xs ih =>
    rw [List.mapM_cons] at h
    obtain ⟨y, hy, h⟩ := bind_ok.1 h
    obtain ⟨ys', hys, h⟩ := bind_ok.1 h
    cases h
    exact .cons hy (ih hys)

theorem mem_of_mapM {f : α → Except ε β} {xs : List α} {ys : List β} (h : xs.mapM f = .ok ys)
    {y : β} (hy : y ∈ ys) : ∃ x ∈ xs, f x = .ok y := exists_left (mapM_ok h) hy

/-- A loop whose steps all return, each with a good result, returns the good results. -/
theorem exists_mapM {f : α → Except ε β} {P : α → β → Prop} {xs : List α}
    (h : ∀ x ∈ xs, ∃ y, f x = .ok y ∧ P x y) :
    ∃ ys, xs.mapM f = .ok ys ∧ List.Forall₂ P xs ys := by
  induction xs with
  | nil => exact ⟨[], rfl, .nil⟩
  | cons x xs ih =>
    rw [List.forall_mem_cons] at h
    obtain ⟨⟨y, hy, hP⟩, htail⟩ := h
    obtain ⟨ys, hys, hall⟩ := ih htail
    exact ⟨y :: ys, by rw [List.mapM_cons, hy, hys]; rfl, .cons hP hall⟩

/-- A loop over mapped elements, when each step gives the mapped result. -/
theorem map_mapM {γ δ : Type} {f : α → Except ε β} {f' : γ → Except ε δ} {g : β → δ} {h : α → γ}
    {xs : List α} (hf : ∀ x ∈ xs, (f x).map g = f' (h x)) :
    (xs.mapM f).map (List.map g) = (xs.map h).mapM f' := by
  induction xs with
  | nil => rfl
  | cons x xs ih =>
    rw [List.forall_mem_cons] at hf
    rw [List.map_cons, List.mapM_cons, List.mapM_cons, ← hf.1, ← ih hf.2]
    cases f x with
    | error e => rfl
    | ok y =>
      cases xs.mapM f with
      | error e => rfl
      | ok ys => rfl

theorem mapM_returns {f : α → Except ε β} {xs : List α} (h : ∀ x ∈ xs, ∃ y, f x = .ok y) :
    ∃ ys, xs.mapM f = .ok ys := by
  obtain ⟨ys, hys, _⟩ := exists_mapM (P := fun _ _ => True) fun x hx => by
    obtain ⟨y, hy⟩ := h x hx
    exact ⟨y, hy, trivial⟩
  exact ⟨ys, hys⟩

/-- A loop raises exactly when a step would. -/
theorem mapM_error {f : α → Except ε β} {l : List α} :
    (∃ e, l.mapM f = .error e) ↔ ∃ a ∈ l, ∃ e, f a = .error e := by
  induction l with
  | nil => simp [pure, Except.pure]
  | cons a l ih =>
    rw [List.mapM_cons]
    cases ha : f a with
    | error e => simp [ha, bind, Except.bind]
    | ok b =>
      cases hl : l.mapM f with
      | error e =>
        have := ih.1 ⟨e, hl⟩
        simpa [ha, bind, Except.bind] using this
      | ok bs =>
        have : ¬ ∃ a ∈ l, ∃ e, f a = .error e := fun h => by
          obtain ⟨e, he⟩ := ih.2 h
          rw [hl] at he
          cases he
        simpa [ha, bind, Except.bind, pure, Except.pure] using this

/-- A loop whose steps may run out of fuel, each with enough fuel at some point, has enough at some
point. -/
theorem exists_fuel {f : Nat → α → Option β} {P : α → β → Prop} {xs : List α}
    (h : ∀ x ∈ xs, ∃ n y, (∀ fuel, n ≤ fuel → f fuel x = some y) ∧ P x y) :
    ∃ n ys, (∀ fuel, n ≤ fuel → xs.mapM (f fuel) = some ys) ∧ List.Forall₂ P xs ys := by
  induction xs with
  | nil => exact ⟨0, [], fun _ _ => rfl, .nil⟩
  | cons x xs ih =>
    rw [List.forall_mem_cons] at h
    obtain ⟨⟨n, y, hy, hP⟩, htail⟩ := h
    obtain ⟨m, ys, hys, hall⟩ := ih htail
    refine ⟨max n m, y :: ys, fun fuel hfuel => ?_, .cons hP hall⟩
    rw [List.mapM_cons, hy fuel (Nat.le_trans (Nat.le_max_left n m) hfuel),
      hys fuel (Nat.le_trans (Nat.le_max_right n m) hfuel)]
    rfl

/-! ## Following a forecast -/

/-- `f` and `g` are one computation as long as the forecast is good, with `I` of its result; after a
bad forecast, `f` ends in `Bad`. -/
structure Follows (good : Prop) (I Bad : β → Prop) (f g : Except ε β) : Prop where
  same : good → g = f
  keeps : good → ∀ r, f = .ok r → I r
  breaks : ¬ good → ∀ r, f = .ok r → Bad r

/-- Two loops whose bodies agree while the forecast `c` of the steps to come is good. A step goes
with a step of the forecast, and a bad forecast stays bad. -/
theorem follow {γ : Type} (next : γ → α → γ) (Good : γ → Prop) (I : γ → β → Prop) (Bad : β → Prop)
    (hgood : ∀ c a, Good (next c a) → Good c)
    (hbad : ∀ b a b', Bad b → f b a = .ok b' → Bad b')
    (hstep : ∀ c a b, Good c → I c b → Follows (Good (next c a)) (I (next c a)) Bad (f b a) (g b a)) :
    ∀ (l : List α) (c : γ) (b : β), Good c → I c b →
      Follows (Good (l.foldl next c)) (I (l.foldl next c)) Bad (l.foldlM f b) (l.foldlM g b) := by
  have hback : ∀ (l : List α) (c : γ), Good (l.foldl next c) → Good c := by
    intro l
    induction l with
    | nil => exact fun c h => h
    | cons a l ih => exact fun c h => hgood c a (ih _ h)
  intro l
  induction l with
  | nil =>
    intro c b hc hb
    refine ⟨fun _ => rfl, fun _ r hr => ?_, fun hn => absurd hc hn⟩
    cases hr
    exact hb
  | cons a l ih =>
    intro c b hc hb
    have ha := hstep c a b hc hb
    rw [List.foldl_cons]
    by_cases hnext : Good (next c a)
    · rw [List.foldlM_cons, List.foldlM_cons, ha.same hnext]
      cases hf : f b a with
      | error e => exact ⟨fun _ => rfl, fun _ r hr => (by cases hr), fun _ r hr => (by cases hr)⟩
      | ok b' => exact ih _ b' hnext (ha.keeps hnext b' hf)
    · have hlast : ¬ Good (l.foldl next (next c a)) := fun h => hnext (hback l _ h)
      refine ⟨fun h => absurd h hlast, fun h => absurd h hlast, fun _ r hr => ?_⟩
      obtain ⟨b', hf, hl⟩ := foldlM_cons_ok.1 hr
      exact keep Bad (fun a _ b b' hb hf => hbad b a b' hb hf) (ha.breaks hnext b' hf) hl

end Loop
