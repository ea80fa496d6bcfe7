import GroovyWorkspace.Proofs.Path.Map
import GroovyWorkspace.Sources.Buffers
import Mathlib.Data.List.Induction

/-!
# Buffers after edits

The buffers of an editor are what a list of edits has made of none. Their tables are in order
(`sorted_after`), whatever the edits are.
-/

namespace GroovyWorkspace.Buffers

/-- What an editor can do to its buffers. Opening a buffer and changing its text are one edit. -/
inductive Edit where
  | put (p : Path) (text : String)
  | close (p : Path)
  | mark (p : Path)
  | reset
  deriving DecidableEq, Repr

def edit (b : Buffers) : Edit → Buffers
  | .put p text => b.put p text
  | .close p => b.close p
  | .mark p => b.mark p
  | .reset => b.reset

def after (edits : List Edit) : Buffers := edits.foldl edit empty

theorem after_concat (edits : List Edit) (e : Edit) : after (edits ++ [e]) = (after edits).edit e :=
  List.foldl_concat ..

/-- Both tables are in order. -/
structure Sorted (b : Buffers) : Prop where
  texts : b.texts.Sorted
  changed : b.changed.Sorted

theorem Sorted.edit {b : Buffers} (h : b.Sorted) (e : Edit) : (b.edit e).Sorted := by
  cases e with
  | put p text => exact ⟨h.texts.insert p text, h.changed.insert p ()⟩
  | close p => exact ⟨h.texts.erase p, h.changed.insert p ()⟩
  | mark p => exact ⟨h.texts, h.changed.insert p ()⟩
  | reset => exact ⟨h.texts, PathMap.sorted_empty⟩

theorem sorted_after (edits : List Edit) : (after edits).Sorted := by
  induction edits using List.reverseRecOn with
  | nil => exact ⟨PathMap.sorted_empty, PathMap.sorted_empty⟩
  | append_singleton edits e ih =>
    rw [after_concat]
    exact ih.edit e

theorem sorted_texts_after (edits : List Edit) : (after edits).texts.Sorted := (sorted_after edits).texts

/-! ## Single edits -/

theorem text?_put (b : Buffers) (q p : Path) (text : String) :
    (b.put q text).text? p = if p.same q then some text else b.text? p :=
  PathMap.get?_insert _ _ _ _

theorem text?_close (b : Buffers) (q p : Path) :
    (b.close q).text? p = if p.same q then none else b.text? p :=
  PathMap.get?_erase _ _ _

theorem isChanged_mark (b : Buffers) (q p : Path) :
    (b.mark q).isChanged p = (p.same q || b.isChanged p) :=
  PathMap.contains_insert _ _ _ _

theorem isChanged_put (b : Buffers) (q p : Path) (text : String) :
    (b.put q text).isChanged p = (p.same q || b.isChanged p) :=
  PathMap.contains_insert _ _ _ _

theorem isChanged_close (b : Buffers) (q p : Path) :
    (b.close q).isChanged p = (p.same q || b.isChanged p) :=
  PathMap.contains_insert _ _ _ _

theorem isChanged_reset (b : Buffers) (p : Path) : b.reset.isChanged p = false := rfl

/-! ## Open paths -/

theorem isOpen_iff_exists_mem {b : Buffers} {p : Path} :
    b.isOpen p = true ↔ ∃ q ∈ b.openPaths, p.same q = true := by
  rw [isOpen, ← PathMap.any_keys, List.any_eq_true]
  rfl

theorem isOpen_of_mem_openPaths {b : Buffers} {p : Path} (h : p ∈ b.openPaths) : b.isOpen p = true :=
  isOpen_iff_exists_mem.mpr ⟨p, h, Path.same_self p⟩

theorem mem_openPaths_put {b : Buffers} (hb : b.texts.Sorted) {p q : Path} {text : String} :
    q ∈ (b.put p text).openPaths ↔ (q = p ∧ b.isOpen q = false) ∨ q ∈ b.openPaths :=
  hb.mem_keys_insert

theorem mem_openPaths_close {b : Buffers} {p q : Path} :
    q ∈ (b.close p).openPaths ↔ p.same q = false ∧ q ∈ b.openPaths :=
  PathMap.mem_keys_erase

end GroovyWorkspace.Buffers
