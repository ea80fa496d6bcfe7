import GroovyWorkspace.Settings.Layered
import Mathlib.Data.List.Induction

/-!
# Precedence of layers

A layer is put in its place by a binary search, which finds the place only in layers that are in order;
`push` keeps them so. The layers are therefore the pushed ones, sorted by scope with those of one scope
in the order of the pushes (`isStableSort_ofPushes`). Of the layers that have a value for a key the last
one counts: it is the one pushed last among those of the greatest scope (`provider?_ofPushes`).
-/

namespace GroovyWorkspace

theorem Scope.rank_injective {a b : Scope} (h : a.rank = b.rank) : a = b := by
  cases a <;> cases b <;> revert h <;> decide

namespace LayeredSettings

/-! ## The search for a place -/

/-- In a list that has the elements with a property in front, an index tells whether its element has
it. -/
theorem any_getElem?_append {α : Type} {p : α → Bool} {front back : List α}
    (hfront : ∀ x ∈ front, p x = true) (hback : ∀ x ∈ back, p x = false) (i : Nat) :
    (front ++ back)[i]?.any p = decide (i < front.length) := by
  by_cases hi : i < front.length
  · rw [List.getElem?_append_left hi, List.getElem?_eq_getElem hi, Option.any_some,
      hfront _ (List.getElem_mem hi), decide_eq_true hi]
  · rw [List.getElem?_append_right (by omega), decide_eq_false hi]
    cases hx : back[i - front.length]? with
    | none => rfl
    | some x => exact hback x (List.mem_of_getElem? hx)

/-- The search between two bounds finds the end of the front part if it lies between them. -/
theorem partitionBetween_append {α : Type} {p : α → Bool} {front back : List α}
    (hfront : ∀ x ∈ front, p x = true) (hback : ∀ x ∈ back, p x = false) {lo hi : Nat}
    (hlo : lo ≤ front.length) (hhi : front.length ≤ hi) :
    partitionBetween p (front ++ back) lo hi = front.length := by
  fun_induction partitionBetween p (front ++ back) lo hi with
  | case1 lo hi _ mid hp ih =>
    rw [any_getElem?_append hfront hback, decide_eq_true_eq] at hp
    exact ih hp hhi
  | case2 lo hi _ mid hp ih =>
    rw [any_getElem?_append hfront hback, decide_eq_true_eq, Nat.not_lt] at hp
    exact ih hlo hp
  | case3 lo hi hge => omega

theorem partitionPoint_append {α : Type} {p : α → Bool} {front back : List α}
    (hfront : ∀ x ∈ front, p x = true) (hback : ∀ x ∈ back, p x = false) :
    partitionPoint p (front ++ back) = front.length :=
  partitionBetween_append hfront hback (Nat.zero_le _) (by simp)

/-! ## Layers in order -/

/-- Whether a layer may stand before another one. -/
def scopeLE (a b : Scope × Settings) : Bool := a.1.rank ≤ b.1.rank

theorem scopeLE_trans (a b c : Scope × Settings) (hab : scopeLE a b = true) (hbc : scopeLE b c = true) :
    scopeLE a c = true := by
  simp only [scopeLE, decide_eq_true_eq] at *
  omega

theorem scopeLE_total (a b : Scope × Settings) : (scopeLE a b || scopeLE b a) = true := by
  simp only [scopeLE, Bool.or_eq_true, decide_eq_true_eq]
  omega

/-- The layers that were pushed, ordered by scope, those of one scope in the order of the pushes. -/
structure IsStableSort (pushes layers : List (Scope × Settings)) : Prop where
  sorted : layers.Pairwise fun a b => scopeLE a b = true
  scopes : ∀ scope, layers.filter (·.1 = scope) = pushes.filter (·.1 = scope)

/-- Layers in order divide into those whose scope is not greater than a given one, and the others. -/
theorem exists_split {layers : List (Scope × Settings)}
    (h : layers.Pairwise fun a b => scopeLE a b = true) (scope : Scope) :
    ∃ front back, layers = front ++ back ∧ (∀ x ∈ front, x.1.rank ≤ scope.rank) ∧
      ∀ x ∈ back, scope.rank < x.1.rank := by
  induction layers with
  | nil => exact ⟨[], [], rfl, by simp, by simp⟩
  | cons layer rest ih =>
    rw [List.pairwise_cons] at h
    by_cases hle : layer.1.rank ≤ scope.rank
    · obtain ⟨front, back, rfl, hfront, hback⟩ := ih h.2
      exact ⟨layer :: front, back, rfl, List.forall_mem_cons.mpr ⟨hle, hfront⟩, hback⟩
    · refine ⟨[], layer :: rest, rfl, by simp, List.forall_mem_cons.mpr ⟨by omega, ?_⟩⟩
      intro x hx
      have hx' := h.1 x hx
      simp only [scopeLE, decide_eq_true_eq] at hx'
      omega

theorem insertIdx_length_append {α : Type} (front back : List α) (a : α) :
    (front ++ back).insertIdx front.length a = front ++ a :: back := by
  induction front with
  | nil => rfl
  | cons x front ih =>
    rw [List.cons_append, List.length_cons, List.insertIdx_succ_cons, ih, List.cons_append]

/-- In layers that are in order, a layer is put between those whose scope is not greater and the
others. -/
theorem layers_push {front back : List (Scope × Settings)} {l : LayeredSettings} {scope : Scope}
    (hl : l.layers = front ++ back) (hfront : ∀ x ∈ front, x.1.rank ≤ scope.rank)
    (hback : ∀ x ∈ back, scope.rank < x.1.rank) (s : Settings) :
    (l.push scope s).layers = front ++ (scope, s) :: back := by
  have hpoint : partitionPoint (fun layer : Scope × Settings => decide (layer.1.rank ≤ scope.rank))
      (front ++ back) = front.length :=
    partitionPoint_append (by simpa using hfront) (by simpa using hback)
  rw [push, hl, hpoint, insertIdx_length_append]

/-- A push keeps the layers in order, and its layer comes last in its scope. -/
theorem IsStableSort.push {pushes : List (Scope × Settings)} {l : LayeredSettings}
    (h : IsStableSort pushes l.layers) (scope : Scope) (s : Settings) :
    IsStableSort (pushes ++ [(scope, s)]) (l.push scope s).layers := by
  obtain ⟨front, back, hl, hfront, hback⟩ := exists_split h.sorted scope
  have hsorted := h.sorted
  have hscopes := h.scopes
  rw [hl] at hsorted hscopes
  rw [layers_push hl hfront hback]
  constructor
  · rw [List.pairwise_append] at hsorted ⊢
    refine ⟨hsorted.1, List.pairwise_cons.mpr ⟨fun x hx => ?_, hsorted.2.1⟩, ?_⟩
    · exact decide_eq_true (Nat.le_of_lt (hback x hx))
    · intro x hx y hy
      rcases List.mem_cons.mp hy with rfl | hy
      · exact decide_eq_true (hfront x hx)
      · exact hsorted.2.2 x hx y hy
  · intro other
    rw [List.filter_append, List.filter_append, ← hscopes other, List.filter_append, List.filter_cons]
    by_cases hother : scope = other
    · -- behind the new layer there is none of its scope
      have hnone : back.filter (·.1 = other) = [] := by
        rw [List.filter_eq_nil_iff]
        intro x hx heq
        have hx' := hback x hx
        rw [of_decide_eq_true heq, hother] at hx'
        exact Nat.lt_irrefl _ hx'
      simp [hother, hnone]
    · simp [hother]

def ofPushes (pushes : List (Scope × Settings)) : LayeredSettings :=
  pushes.foldl (fun l p => l.push p.1 p.2) empty

theorem isStableSort_ofPushes (pushes : List (Scope × Settings)) :
    IsStableSort pushes (ofPushes pushes).layers := by
  induction pushes using List.reverseRecOn with
  | nil => exact ⟨List.Pairwise.nil, fun _ => rfl⟩
  | append_singleton pushes p ih =>
    have hstep : ofPushes (pushes ++ [p]) = (ofPushes pushes).push p.1 p.2 := by
      rw [ofPushes, List.foldl_append]
      rfl
    rw [hstep]
    exact ih.push p.1 p.2

/-! ## One order only -/

theorem mem_iff_of_filter_eq {layers others : List (Scope × Settings)}
    (h : ∀ scope, layers.filter (·.1 = scope) = others.filter (·.1 = scope)) (x : Scope × Settings) :
    x ∈ layers ↔ x ∈ others := by
  have hx : x ∈ layers.filter (·.1 = x.1) ↔ x ∈ others.filter (·.1 = x.1) := by rw [h]
  simpa [List.mem_filter] using hx

/-- Layers in order are determined by those of each scope. -/
theorem eq_of_filter_eq {layers others : List (Scope × Settings)}
    (hlayers : layers.Pairwise fun a b => scopeLE a b = true)
    (hothers : others.Pairwise fun a b => scopeLE a b = true)
    (h : ∀ scope, layers.filter (·.1 = scope) = others.filter (·.1 = scope)) : layers = others := by
  have hmem := mem_iff_of_filter_eq h
  induction layers generalizing others with
  | nil =>
    cases others with
    | nil => rfl
    | cons y others => exact absurd ((hmem y).mpr List.mem_cons_self) List.not_mem_nil
  | cons x layers ih =>
    cases others with
    | nil => exact absurd ((hmem x).mp List.mem_cons_self) List.not_mem_nil
    | cons y others =>
      rw [List.pairwise_cons] at hlayers hothers
      -- each of the two lists starts with its smallest scope
      have hscope : x.1 = y.1 := by
        refine Scope.rank_injective (Nat.le_antisymm ?_ ?_)
        · rcases List.mem_cons.mp ((hmem y).mpr List.mem_cons_self) with rfl | hy
          · exact Nat.le_refl _
          · exact of_decide_eq_true (hlayers.1 y hy)
        · rcases List.mem_cons.mp ((hmem x).mp List.mem_cons_self) with rfl | hx
          · exact Nat.le_refl _
          · exact of_decide_eq_true (hothers.1 x hx)
      have hhead : x = y := by
        have hx := h y.1
        simp only [List.filter_cons, hscope, decide_true, if_true, List.cons.injEq] at hx
        exact hx.1
      subst hhead
      have htail : ∀ scope, layers.filter (·.1 = scope) = others.filter (·.1 = scope) := by
        intro scope
        have hs := h scope
        rw [List.filter_cons, List.filter_cons] at hs
        split at hs
        · exact (List.cons.inj hs).2
        · exact hs
      rw [ih hlayers.2 hothers.2 htail (mem_iff_of_filter_eq htail)]

/-- Sorting by scope without changing the order in a scope gives the same layers. -/
theorem isStableSort_mergeSort (pushes : List (Scope × Settings)) :
    IsStableSort pushes (pushes.mergeSort scopeLE) := by
  refine ⟨List.pairwise_mergeSort scopeLE_trans scopeLE_total pushes, fun scope => ?_⟩
  have hscope : (pushes.filter (·.1 = scope)).Pairwise fun a b => scopeLE a b = true := by
    rw [List.pairwise_iff_forall_sublist]
    intro a b hab
    have ha := List.mem_filter.mp (hab.subset List.mem_cons_self)
    have hb := List.mem_filter.mp (hab.subset (List.mem_cons_of_mem _ List.mem_cons_self))
    rw [scopeLE, of_decide_eq_true ha.2, of_decide_eq_true hb.2]
    exact decide_eq_true (Nat.le_refl _)
  have hsub : (pushes.filter (·.1 = scope)).Sublist ((pushes.mergeSort scopeLE).filter (·.1 = scope)) := by
    have hkept := List.sublist_mergeSort scopeLE_trans scopeLE_total hscope List.filter_sublist
    simpa only [List.filter_filter, Bool.and_self] using hkept.filter (·.1 = scope)
  exact (hsub.eq_of_length ((List.mergeSort_perm pushes scopeLE).filter _).length_eq.symm).symm

/-! ## The layer that provides a value -/

def provider? (l : LayeredSettings) (key : String) : Option (Scope × Settings) :=
  l.layers.reverse.find? fun layer => (layer.2.get? key).isSome

theorem scopeOf?_eq_provider? (l : LayeredSettings) (key : String) :
    l.scopeOf? key = (l.provider? key).map Prod.fst := rfl

theorem get?_eq_provider? (l : LayeredSettings) (key : String) :
    l.get? key = (l.provider? key).bind fun layer => layer.2.get? key := by
  rw [get?, provider?]
  induction l.layers.reverse with
  | nil => rfl
  | cons layer rest ih =>
    rw [List.findSome?_cons, List.find?_cons]
    cases hv : layer.2.get? key with
    | none => simpa [hv] using ih
    | some v => simp [hv]

/-- The layer pushed at index `i` is the greatest one, by scope and then by index, of those that have a
value for a key. -/
structure Prevails (pushes : List (Scope × Settings)) (key : String) (i : Nat)
    (layer : Scope × Settings) : Prop where
  pushed : pushes[i]? = some layer
  defines : (layer.2.get? key).isSome = true
  greatest : ∀ j other, pushes[j]? = some other → (other.2.get? key).isSome = true →
    other.1.rank < layer.1.rank ∨ other.1 = layer.1 ∧ j ≤ i

theorem layers_ofPushes (pushes : List (Scope × Settings)) :
    (ofPushes pushes).layers = pushes.mergeSort scopeLE := by
  have hpushed := isStableSort_ofPushes pushes
  have hmerged := isStableSort_mergeSort pushes
  refine eq_of_filter_eq hpushed.sorted hmerged.sorted fun scope => ?_
  rw [hpushed.scopes, hmerged.scopes]

theorem rank_lt_or_of_zipIdxLE {a b : (Scope × Settings) × Nat}
    (h : List.zipIdxLE scopeLE a b = true) :
    a.1.1.rank < b.1.1.rank ∨ a.1.1 = b.1.1 ∧ a.2 ≤ b.2 := by
  simp only [List.zipIdxLE, scopeLE, decide_eq_true_eq] at h
  split at h
  · rename_i hab
    split at h
    · rename_i hba
      exact .inr ⟨Scope.rank_injective (Nat.le_antisymm hab hba), of_decide_eq_true h⟩
    · exact .inl (by omega)
  · cases h

/-- The layer that provides a value prevails over all others. With their indices as a second key, the
layers are in order and no two of them are equal. -/
theorem provider?_ofPushes {pushes : List (Scope × Settings)} {key : String} {layer : Scope × Settings}
    (h : (ofPushes pushes).provider? key = some layer) : ∃ i, Prevails pushes key i layer := by
  rw [provider?, layers_ofPushes, ← List.mergeSort_zipIdx, ← List.map_reverse, List.find?_map] at h
  obtain ⟨⟨_, i⟩, hfound, rfl⟩ := Option.map_eq_some_iff.mp h
  obtain ⟨hdefines, front, back, hsplit, hfront⟩ := List.find?_eq_some_iff_append.mp hfound
  have hmem : ∀ x : (Scope × Settings) × Nat,
      x ∈ (pushes.zipIdx.mergeSort (List.zipIdxLE scopeLE)).reverse ↔ pushes[x.2]? = some x.1 := by
    intro x
    rw [List.mem_reverse, List.mem_mergeSort, List.mem_zipIdx_iff_getElem?]
  have hsorted := List.pairwise_mergeSort (List.zipIdxLE_trans scopeLE_trans)
    (List.zipIdxLE_total scopeLE_total) pushes.zipIdx
  rw [← List.pairwise_reverse, hsplit, List.pairwise_append, List.pairwise_cons] at hsorted
  rw [hsplit] at hmem
  refine ⟨i, (hmem (_, i)).mp (by simp), hdefines, fun j other hother hsome => ?_⟩
  rcases List.mem_append.mp ((hmem (other, j)).mpr hother) with hin | hin
  · -- no layer before the one that is found has a value
    have hno := hfront _ hin
    simp [hsome] at hno
  · rcases List.mem_cons.mp hin with heq | hin
    · obtain ⟨rfl, rfl⟩ := Prod.mk.inj heq
      exact .inr ⟨rfl, Nat.le_refl _⟩
    · exact rank_lt_or_of_zipIdxLE (hsorted.2.1.1 (other, j) hin)

/-- **Precedence of layers.** After any pushes the layers are the pushed ones, sorted by scope without
changing their order in a scope. A key has no value if no layer has one; otherwise its value and its
scope are those of the layer that prevails. Pushes that differ only in how the scopes are interleaved
give the same layers. -/
theorem precedence_ofPushes (pushes : List (Scope × Settings)) :
    (ofPushes pushes).layers = pushes.mergeSort scopeLE ∧
      (∀ key,
        (∀ layer ∈ pushes, layer.2.get? key = none) ∧
            (ofPushes pushes).get? key = none ∧ (ofPushes pushes).scopeOf? key = none ∨
          ∃ i layer, Prevails pushes key i layer ∧
            (ofPushes pushes).get? key = layer.2.get? key ∧
            (ofPushes pushes).scopeOf? key = some layer.1) ∧
      ∀ others, (∀ scope, pushes.filter (·.1 = scope) = others.filter (·.1 = scope)) →
        (ofPushes pushes).layers = (ofPushes others).layers := by
  refine ⟨layers_ofPushes pushes, fun key => ?_, fun others hothers => ?_⟩
  · rw [get?_eq_provider?, scopeOf?_eq_provider?]
    cases hp : (ofPushes pushes).provider? key with
    | none =>
      refine .inl ⟨fun layer hlayer => ?_, rfl, rfl⟩
      have hin : layer ∈ (ofPushes pushes).layers.reverse := by
        rwa [List.mem_reverse, layers_ofPushes, List.mem_mergeSort]
      have hnone := List.find?_eq_none.mp hp layer hin
      simpa using hnone
    | some layer =>
      obtain ⟨i, hi⟩ := provider?_ofPushes hp
      exact .inr ⟨i, layer, hi, rfl, rfl⟩
  · have hpushed := isStableSort_ofPushes pushes
    have hother := isStableSort_ofPushes others
    refine eq_of_filter_eq hpushed.sorted hother.sorted fun scope => ?_
    rw [hpushed.scopes, hother.scopes, hothers]

/-- Layers of three scopes, two of them for the workspace. -/
def scattered : List (Scope × Settings) :=
  [(.workspace, ⟨[("a", .string "first")]⟩), (.override, ⟨[("b", .string "given")]⟩),
    (.workspace, ⟨[("a", .string "second")]⟩), (.user, ⟨[("a", .string "user")]⟩)]

/-- The same layers, pushed scope by scope. -/
def gathered : List (Scope × Settings) :=
  [(.user, ⟨[("a", .string "user")]⟩), (.workspace, ⟨[("a", .string "first")]⟩),
    (.workspace, ⟨[("a", .string "second")]⟩), (.override, ⟨[("b", .string "given")]⟩)]

theorem precedence_ofPushes_scattered :
    (∀ scope, scattered.filter (·.1 = scope) = gathered.filter (·.1 = scope)) ∧
      (ofPushes scattered).layers = (ofPushes gathered).layers ∧
      (ofPushes scattered).layers = gathered ∧
      (ofPushes scattered).get? "a" = some (.string "second") ∧
      (ofPushes scattered).scopeOf? "a" = some .workspace := by
  have hscopes : ∀ scope, scattered.filter (·.1 = scope) = gathered.filter (·.1 = scope) := by
    intro scope
    cases scope <;> rfl
  have hlayers : (ofPushes scattered).layers = gathered := by
    have hpushed := isStableSort_ofPushes scattered
    refine eq_of_filter_eq hpushed.sorted (by decide) fun scope => ?_
    rw [hpushed.scopes, hscopes]
  refine ⟨hscopes, (precedence_ofPushes scattered).2.2 gathered hscopes, hlayers, ?_, ?_⟩
  · rw [get?, hlayers]
    rfl
  · rw [scopeOf?, hlayers]
    rfl

end LayeredSettings
end GroovyWorkspace
