import GroovyWorkspace.Proofs.Sources.Buffers
import GroovyWorkspace.Proofs.Sources.Build

/-!
# What a history leaves

Buffers and units are tables to which one operation writes after the other. What such a table says of a path
goes back to one operation: it wrote there, and none behind it wrote there again (`Since`). The text of a
buffer, the change of a path, the spelling that is listed and the source of a unit are all found in this way
(`Buffers.buffers_after_edits`, `CompilationUnit.sources_after_changes`).
-/

namespace GroovyWorkspace

/-! ## Histories -/

/-- Some operation of a history meets a condition, which may look at what was before, and all operations
behind it meet another one. -/
def Since {α : Type} (here : List α → α → Prop) (behind : α → Prop) (history : List α) : Prop :=
  ∃ before e rest, history = before ++ e :: rest ∧ here before e ∧ ∀ d ∈ rest, behind d

section Since

variable {α : Type} {here : List α → α → Prop} {behind : α → Prop}

theorem not_since_nil : ¬ Since here behind [] := by
  rintro ⟨before, e, rest, h, -, -⟩
  exact absurd h.symm (List.append_ne_nil_of_right_ne_nil _ (List.cons_ne_nil _ _))

/-- The last operation is the one, or it is behind the one. -/
theorem since_concat {history : List α} {e : α} :
    Since here behind (history ++ [e]) ↔ here history e ∨ behind e ∧ Since here behind history := by
  constructor
  · rintro ⟨before, d, rest, h, hd, hrest⟩
    rcases List.eq_nil_or_concat' rest with rfl | ⟨rest, last, rfl⟩
    · obtain ⟨rfl, hlast⟩ := List.append_inj' h rfl
      cases hlast
      exact .inl hd
    · rw [← List.cons_append, ← List.append_assoc] at h
      obtain ⟨rfl, hlast⟩ := List.append_inj' h rfl
      cases hlast
      rw [List.forall_mem_append] at hrest
      exact .inr ⟨hrest.2 e (List.mem_singleton_self e), before, d, rest, rfl, hd, hrest.1⟩
  · rintro (h | ⟨he, before, d, rest, rfl, hd, hrest⟩)
    · exact ⟨history, e, [], rfl, h, fun _ h => absurd h List.not_mem_nil⟩
    · refine ⟨before, d, rest ++ [e], by rw [List.append_assoc, List.cons_append], hd, ?_⟩
      rw [List.forall_mem_append, List.forall_mem_singleton]
      exact ⟨hrest, he⟩

/-- A property of which each step says how it comes about goes back to the operation that brought it about. -/
theorem foldl_iff_since {σ : Type} (holds : σ → Prop) {step : σ → α → σ} {start : σ} (hstart : ¬ holds start)
    (hstep : ∀ history e, holds (step (history.foldl step start) e) ↔
      here history e ∨ behind e ∧ holds (history.foldl step start)) (history : List α) :
    holds (history.foldl step start) ↔ Since here behind history := by
  induction history using List.reverseRecOn with
  | nil => exact ⟨fun h => absurd h hstart, fun h => absurd h not_since_nil⟩
  | append_singleton history e ih => rw [List.foldl_concat, since_concat, hstep, ih]

end Since

namespace Buffers

/-! ## Buffers -/

/-- The path that an edit is made to. Forgetting the changes is made to none. -/
def Edit.path? : Edit → Option Path
  | put p _ => some p
  | close p => some p
  | mark p => some p
  | reset => none

/-- Whether an edit is made to a path, however that is spelled. -/
def Edit.concerns (e : Edit) (p : Path) : Bool := e.path?.any p.same

/-- Whether an edit opens the buffer of a path or changes its text. -/
def Edit.puts : Edit → Path → Bool
  | put q _, p => p.same q
  | _, _ => false

def Edit.closes : Edit → Path → Bool
  | close q, p => p.same q
  | _, _ => false

/-- A text is that of the last edit that put one, if the buffer has not been closed since. -/
theorem text?_after_eq_some_iff (edits : List Edit) (p : Path) (text : String) :
    (after edits).text? p = some text ↔
      Since (fun _ e => ∃ q, e = .put q text ∧ p.same q = true)
        (fun e => e.puts p = false ∧ e.closes p = false) edits := by
  refine foldl_iff_since (fun b : Buffers => b.text? p = some text) ?_ (fun before e => ?_) edits
  · exact nofun
  cases e with
  | put q t =>
    rw [edit, text?_put]
    cases hpq : p.same q <;> simp [Edit.puts, Edit.closes, hpq]
  | close q =>
    rw [edit, text?_close]
    cases hpq : p.same q <;> simp [Edit.puts, Edit.closes, hpq]
  | mark q => simp [edit, mark, text?, Edit.puts, Edit.closes]
  | reset => simp [edit, reset, text?, Edit.puts, Edit.closes]

/-- A path has changed if an edit has been made to it since the changes were last forgotten. -/
theorem isChanged_after_iff (edits : List Edit) (p : Path) :
    (after edits).isChanged p = true ↔
      Since (fun _ e => e.concerns p = true) (fun e => e ≠ .reset) edits := by
  refine foldl_iff_since (fun b : Buffers => b.isChanged p = true) ?_ (fun before e => ?_) edits
  · exact nofun
  cases e with
  | put q t => rw [edit, isChanged_put]; simp [Edit.concerns, Edit.path?]
  | close q => rw [edit, isChanged_close]; simp [Edit.concerns, Edit.path?]
  | mark q => rw [edit, isChanged_mark]; simp [Edit.concerns, Edit.path?]
  | reset => rw [edit, isChanged_reset]; simp [Edit.concerns, Edit.path?]

/-- A path is listed in the spelling with which it was opened when it was not open yet. -/
theorem mem_openPaths_after_iff (edits : List Edit) (q : Path) :
    q ∈ (after edits).openPaths ↔
      Since (fun before e => (∃ text, e = .put q text) ∧ (after before).isOpen q = false)
        (fun e => e.closes q = false) edits := by
  refine foldl_iff_since (fun b : Buffers => q ∈ b.openPaths) ?_ (fun before e => ?_) edits
  · exact List.not_mem_nil
  show q ∈ ((after before).edit e).openPaths ↔ _ ∨ _ ∧ q ∈ (after before).openPaths
  cases e with
  | put p text =>
    have hput : (∃ t, Edit.put p text = .put q t) ↔ q = p := by
      constructor
      · rintro ⟨t, h⟩
        cases h
        rfl
      · rintro rfl
        exact ⟨text, rfl⟩
    rw [edit, mem_openPaths_put (sorted_texts_after before), hput]
    simp [Edit.closes]
  | close p =>
    rw [edit, mem_openPaths_close, Path.same_comm]
    simp [Edit.closes]
  | mark p => simp [edit, mark, openPaths, Edit.closes]
  | reset => simp [edit, reset, openPaths, Edit.closes]

/-! ## Edits to different paths -/

def entriesAt (b : Buffers) (p : Path) : Option (Path × String) × Option (Path × Unit) :=
  (b.texts.stored? p, b.changed.stored? p)

theorem Sorted.ext {b c : Buffers} (hb : b.Sorted) (hc : c.Sorted) (h : ∀ p, b.entriesAt p = c.entriesAt p) :
    b = c := by
  obtain ⟨texts, changed⟩ := b
  obtain ⟨texts', changed'⟩ := c
  obtain rfl : texts = texts' := hb.texts.ext hc.texts fun p => congrArg Prod.fst (h p)
  obtain rfl : changed = changed' := hb.changed.ext hc.changed fun p => congrArg Prod.snd (h p)
  rfl

theorem entriesAt_edit {b : Buffers} (hb : b.Sorted) {e : Edit} {p q : Path} (he : e.path? = some q)
    (hpq : p.same q = false) : (b.edit e).entriesAt p = b.entriesAt p := by
  have hchanged : (b.changed.insert q ()).stored? p = b.changed.stored? p := by
    rw [PathMap.stored?_insert hb.changed, hpq, if_neg Bool.false_ne_true]
  cases e with
  | put r text =>
    cases he
    refine Prod.ext ?_ hchanged
    show (b.texts.insert q text).stored? p = _
    rw [PathMap.stored?_insert hb.texts, hpq, if_neg Bool.false_ne_true]
    rfl
  | close r =>
    cases he
    refine Prod.ext ?_ hchanged
    show (b.texts.erase q).stored? p = _
    rw [PathMap.stored?_erase, hpq, if_neg Bool.false_ne_true]
    rfl
  | mark r =>
    cases he
    exact Prod.ext rfl hchanged
  | reset => cases he

theorem entriesAt_edit_congr {b c : Buffers} (hb : b.Sorted) (hc : c.Sorted) {p : Path}
    (h : b.entriesAt p = c.entriesAt p) (e : Edit) : (b.edit e).entriesAt p = (c.edit e).entriesAt p := by
  obtain ⟨htexts, hchanged⟩ := Prod.mk.inj h
  have hmarked : ∀ q, (b.changed.insert q ()).stored? p = (c.changed.insert q ()).stored? p :=
    fun q => PathMap.stored?_insert_congr hb.changed hc.changed hchanged q ()
  cases e with
  | put q text => exact Prod.ext (PathMap.stored?_insert_congr hb.texts hc.texts htexts q text) (hmarked q)
  | close q =>
    refine Prod.ext ?_ (hmarked q)
    show (b.texts.erase q).stored? p = (c.texts.erase q).stored? p
    rw [PathMap.stored?_erase, PathMap.stored?_erase, htexts]
  | mark q => exact Prod.ext htexts (hmarked q)
  | reset => exact Prod.ext htexts rfl

/-- An edit to another path makes no difference, be it made before or after. -/
theorem entriesAt_edit_edit {b : Buffers} (hb : b.Sorted) {e : Edit} {p q : Path} (he : e.path? = some q)
    (hpq : p.same q = false) (d : Edit) : ((b.edit d).edit e).entriesAt p = ((b.edit e).edit d).entriesAt p :=
  calc ((b.edit d).edit e).entriesAt p = (b.edit d).entriesAt p := entriesAt_edit (hb.edit d) he hpq
    _ = ((b.edit e).edit d).entriesAt p :=
      entriesAt_edit_congr hb (hb.edit e) (entriesAt_edit hb he hpq).symm d

theorem edit_comm {b : Buffers} (hb : b.Sorted) {d e : Edit} {p q : Path} (hd : d.path? = some p)
    (he : e.path? = some q) (hpq : p.same q = false) : (b.edit d).edit e = (b.edit e).edit d := by
  refine ((hb.edit d).edit e).ext ((hb.edit e).edit d) fun r => ?_
  -- one of the two edits is to another path than `r`
  by_cases hr : r.same p = true
  · have hrq : r.same q = false := by rw [Path.same_congr hr, hpq]
    exact entriesAt_edit_edit hb he hrq d
  · exact (entriesAt_edit_edit hb hd (Bool.eq_false_iff.mpr hr) e).symm

/-- Two edits to different paths can be exchanged anywhere in a history. -/
theorem after_exchange {d e : Edit} {p q : Path} (hd : d.path? = some p) (he : e.path? = some q)
    (hpq : p.same q = false) (before rest : List Edit) :
    after (before ++ d :: e :: rest) = after (before ++ e :: d :: rest) := by
  have hswap := edit_comm (sorted_after before) hd he hpq
  unfold after at hswap ⊢
  rw [List.foldl_append, List.foldl_append, List.foldl_cons, List.foldl_cons, List.foldl_cons,
    List.foldl_cons, hswap]

/-- **What a history of edits leaves.** The text at a path is that of the last edit which put one there, if
the buffer has not been closed since, and a buffer is open exactly if there is a text. A path has changed
exactly if an edit has been made to it since the changes were last forgotten. The open paths are listed in
strict order, each in the spelling with which it was opened when it was not open. Edits to different paths
can be exchanged. -/
theorem buffers_after_edits (edits : List Edit) :
    (∀ p text, (after edits).text? p = some text ↔
        Since (fun _ e => ∃ q, e = .put q text ∧ p.same q = true)
          (fun e => e.puts p = false ∧ e.closes p = false) edits) ∧
      (∀ p, (after edits).isOpen p = ((after edits).text? p).isSome) ∧
      (∀ p, (after edits).isChanged p = true ↔
        Since (fun _ e => e.concerns p = true) (fun e => e ≠ .reset) edits) ∧
      ((after edits).openPaths.Pairwise fun p q => p.compare q = .lt) ∧
      (∀ p, (after edits).isOpen p = true ↔ ∃ q ∈ (after edits).openPaths, p.same q = true) ∧
      (∀ q, q ∈ (after edits).openPaths ↔
        Since (fun before e => (∃ text, e = .put q text) ∧ (after before).isOpen q = false)
          (fun e => e.closes q = false) edits) ∧
      ∀ before rest d e p q, edits = before ++ d :: e :: rest → d.path? = some p → e.path? = some q →
        p.same q = false → after edits = after (before ++ e :: d :: rest) := by
  refine ⟨text?_after_eq_some_iff edits, fun _ => rfl, isChanged_after_iff edits, ?_,
    fun p => isOpen_iff_exists_mem, mem_openPaths_after_iff edits, ?_⟩
  · exact List.pairwise_map.mpr (sorted_texts_after edits)
  · rintro before rest d e p q rfl hd he hpq
    exact after_exchange hd he hpq before rest

/-- The buffer `a//b` is opened and edited under another spelling. The buffer `c` is closed without being
open, and opened after the changes have been forgotten. -/
def respelled : List Edit :=
  [.put (.ofString "a//b") "1", .close (.ofString "c"), .put (.ofString "a/b/") "2", .reset,
    .put (.ofString "c") "3"]

theorem buffers_after_edits_respelled :
    (after respelled).text? (.ofString "a/b") = some "2" ∧
      (after respelled).isChanged (.ofString "a/b") = false ∧
      (after respelled).isChanged (.ofString "c") = true ∧
      (after respelled).openPaths = [.ofString "a//b", .ofString "c"] ∧
      after respelled =
        after (.close (.ofString "c") :: .put (.ofString "a//b") "1" :: respelled.drop 2) := by
  obtain ⟨htext, -, hchanged, -, -, -, hexchange⟩ := buffers_after_edits respelled
  refine ⟨(htext _ _).mpr ?_, by decide, (hchanged _).mpr ?_, by decide, ?_⟩
  · exact ⟨respelled.take 2, .put (.ofString "a/b/") "2", respelled.drop 3, rfl, ⟨_, rfl, by decide⟩,
      by decide⟩
  · exact ⟨respelled.take 4, .put (.ofString "c") "3", [], rfl, by decide, by decide⟩
  · exact hexchange [] (respelled.drop 2) (.put (.ofString "a//b") "1") (.close (.ofString "c")) _ _ rfl
      rfl rfl (by decide)

end Buffers

namespace CompilationUnit

/-! ## Units -/

inductive Change where
  | add (s : Source)
  | remove (ps : List Path)
  deriving DecidableEq, Repr

def change (u : CompilationUnit) : Change → CompilationUnit
  | .add s => u.add s
  | .remove ps => (u.removeAll ps).1

def after (config : CompilerConfig) (changes : List Change) : CompilationUnit :=
  changes.foldl change { config }

theorem after_concat (config : CompilerConfig) (changes : List Change) (c : Change) :
    after config (changes ++ [c]) = (after config changes).change c :=
  List.foldl_concat ..

def Change.concerns : Change → Path → Bool
  | add s, p => p.same s.path
  | remove ps, p => ps.any p.same

/-- The source at a path is the last one added there, if none has been removed there since. -/
theorem source?_after_eq_some_iff (config : CompilerConfig) (changes : List Change) (p : Path) (s : Source) :
    (after config changes).source? p = some s ↔
      Since (fun _ c => c = .add s ∧ p.same s.path = true) (fun c => c.concerns p = false) changes := by
  refine foldl_iff_since (fun u : CompilationUnit => u.source? p = some s) ?_ (fun before c => ?_) changes
  · exact nofun
  cases c with
  | add r =>
    rw [change, source?_add]
    cases hp : p.same r.path with
    | true =>
      constructor
      · intro h
        cases h
        exact .inl ⟨rfl, hp⟩
      · rintro (⟨h, -⟩ | ⟨h, -⟩)
        · cases h
          rfl
        · rw [Change.concerns, hp] at h
          cases h
    | false =>
      refine ⟨fun h => .inr ⟨hp, h⟩, ?_⟩
      rintro (⟨h, hs⟩ | ⟨-, h⟩)
      · cases h
        rw [hp] at hs
        cases hs
      · exact h
  | remove ps =>
    rw [change, source?_removeAll]
    cases hp : ps.any p.same <;> simp [Change.concerns, hp]

/-! ## Keys and paths -/

/-- The table is in order, and its keys are spellings of the paths of their sources. -/
structure Indexed (u : CompilationUnit) : Prop where
  sorted : u.table.Sorted
  key : ∀ e ∈ u.table.entries, e.1.same e.2.path = true

theorem Indexed.add {u : CompilationUnit} (h : u.Indexed) (s : Source) : (u.add s).Indexed := by
  have hsorted : (u.add s).table.Sorted := h.sorted.insert s.path s
  refine ⟨hsorted, fun e he => ?_⟩
  have hstored : (u.table.insert s.path s).stored? e.1 = some e := hsorted.stored?_of_mem he
  rw [PathMap.stored?_insert h.sorted] at hstored
  by_cases hpath : e.1.same s.path = true
  · -- the key stays and takes the new source
    rw [if_pos hpath] at hstored
    cases hstored
    exact hpath
  · rw [if_neg hpath] at hstored
    exact h.key e (PathMap.mem_of_stored? hstored)

theorem Indexed.removeAll {u : CompilationUnit} (h : u.Indexed) (ps : List Path) :
    (u.removeAll ps).1.Indexed := by
  refine ⟨sorted_removeAll h.sorted ps, fun e he => h.key e ?_⟩
  rw [entries_removeAll] at he
  exact List.mem_of_mem_filter he

theorem indexed_after (config : CompilerConfig) (changes : List Change) : (after config changes).Indexed := by
  induction changes using List.reverseRecOn with
  | nil => exact ⟨PathMap.sorted_empty, fun _ h => absurd h List.not_mem_nil⟩
  | append_singleton changes c ih =>
    rw [after_concat]
    cases c with
    | add s => exact ih.add s
    | remove ps => exact ih.removeAll ps

/-- Sources are in the order of their own paths, although it is the keys that are sorted. -/
theorem Indexed.pairwise_sources {u : CompilationUnit} (h : u.Indexed) :
    u.sources.Pairwise fun r s => r.path.compare s.path = .lt := by
  refine List.pairwise_map.mpr (List.Pairwise.imp_of_mem (fun {d e} hd he hlt => ?_) h.sorted)
  rw [Path.compare] at hlt ⊢
  rwa [← Path.same_iff.mp (h.key d hd), ← Path.same_iff.mp (h.key e he)]

/-! ## Counting what is removed -/

theorem removeAll_snd_add_size {u : CompilationUnit} (hu : u.table.Distinct) (ps : List Path) :
    (u.removeAll ps).2 + (u.removeAll ps).1.size = u.size := by
  rw [← Nat.zero_add u.size]
  unfold removeAll
  -- the count that the loop carries makes up for what the unit loses
  generalize 0 = n
  induction ps generalizing u n with
  | nil => rfl
  | cons p rest ih =>
    have herase : (u.remove p).size + (if u.contains p then 1 else 0) = u.size := hu.size_erase p
    refine (ih (hu.erase p) _).trans ?_
    show (if u.contains p then n + 1 else n) + (u.remove p).size = n + u.size
    by_cases hp : u.contains p = true
    · rw [if_pos hp] at herase ⊢
      omega
    · rw [if_neg hp] at herase ⊢
      omega

/-- What is counted are the sources at the given paths, each once. -/
theorem Indexed.removeAll_snd {u : CompilationUnit} (h : u.Indexed) (ps : List Path) :
    (u.removeAll ps).2 = u.sources.countP fun s => ps.any s.path.same := by
  have hleft : (u.removeAll ps).1.size = u.table.entries.countP fun e => !ps.any e.1.same := by
    rw [size, PathMap.size, entries_removeAll, ← List.countP_eq_length_filter]
  have hsplit : u.size = (u.table.entries.countP fun e => ps.any e.1.same) +
      u.table.entries.countP fun e => !ps.any e.1.same := by
    rw [size, PathMap.size, List.length_eq_countP_add_countP fun e => ps.any e.1.same]
    simp only [Bool.not_eq_true, Bool.decide_eq_false]
  -- a key and the path of its source are spellings of one path
  have hsources : (u.sources.countP fun s => ps.any s.path.same) =
      u.table.entries.countP fun e => ps.any e.1.same := by
    rw [sources, PathMap.values, List.countP_map]
    refine List.countP_congr fun e he => ?_
    rw [Function.comp_apply, funext (Path.same_congr (h.key e he))]
  have hdecrease := removeAll_snd_add_size h.sorted.distinct ps
  omega

/-- **What a history of changes leaves.** The keys of the table are spellings of the paths of their sources,
so that the sources are in the strict order of their own paths and no two of them are at one path. The source
at a path is the last one that was added there and has not been removed since. Removing sources tells how many
there are less, however often and in whatever spelling a path is given. -/
theorem sources_after_changes (config : CompilerConfig) (changes : List Change) :
    (∀ e ∈ (after config changes).table.entries, e.1.same e.2.path = true) ∧
      ((after config changes).sources.Pairwise fun r s => r.path.compare s.path = .lt) ∧
      ((after config changes).sources.Pairwise fun r s => r.path.same s.path = false) ∧
      (∀ p s, (after config changes).source? p = some s ↔
        Since (fun _ c => c = .add s ∧ p.same s.path = true) (fun c => c.concerns p = false) changes) ∧
      ∀ ps,
        ((after config changes).removeAll ps).2 + ((after config changes).removeAll ps).1.size =
            (after config changes).size ∧
          ((after config changes).removeAll ps).2 =
            (after config changes).sources.countP fun s => ps.any s.path.same := by
  have hindexed := indexed_after config changes
  refine ⟨hindexed.key, hindexed.pairwise_sources, hindexed.pairwise_sources.imp Path.not_same_of_lt,
    source?_after_eq_some_iff config changes, fun ps => ⟨?_, hindexed.removeAll_snd ps⟩⟩
  exact removeAll_snd_add_size hindexed.sorted.distinct ps

/-- The source at `a//b` is replaced under another spelling, after something else has been removed. -/
def replacedSource : List Change :=
  [.add ⟨.ofString "a//b", .disk⟩, .add ⟨.ofString "c", .disk⟩, .remove [.ofString "d"],
    .add ⟨.ofString "a/b", .buffer "x"⟩]

/-- The key keeps its spelling. The path `c` is given twice and counted once. -/
theorem sources_after_changes_replacedSource :
    (after { classpath := .empty } replacedSource).table.keys = [.ofString "a//b", .ofString "c"] ∧
      (after { classpath := .empty } replacedSource).source? (.ofString "a/./b") =
        some ⟨.ofString "a/b", .buffer "x"⟩ ∧
      ((after { classpath := .empty } replacedSource).removeAll
        [.ofString "c", .ofString "c/", .ofString "d"]).2 = 1 := by
  obtain ⟨-, -, -, hsource, hremove⟩ := sources_after_changes { classpath := .empty } replacedSource
  refine ⟨by decide, (hsource _ _).mpr ?_, (hremove _).2.trans (by decide)⟩
  exact ⟨replacedSource.take 3, _, [], rfl, ⟨rfl, by decide⟩, by decide⟩

end CompilationUnit
end GroovyWorkspace
