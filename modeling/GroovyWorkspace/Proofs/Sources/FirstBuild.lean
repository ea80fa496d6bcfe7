import GroovyWorkspace.Proofs.Path.Below
import GroovyWorkspace.Proofs.Sources.Buffers
import GroovyWorkspace.Proofs.Sources.CurrentRoot
import GroovyWorkspace.Proofs.Sources.Incremental

/-!
# First builds

A first build for a root takes a file from disk unless a buffer is open in the spelling in which the file
was found, while it takes a buffer if its normal form begins with that of the root. Since the two tests
differ, a file can be compiled from disk beside its buffer (`exists_doublesBuffer_iff`), and a buffer
outside of a relative root can be compiled at all (`forall_isBelow_join_iff`). No file gets lost between
the two: a file that is open is left to the buffers, and its buffer passes their test, since names behind
a root stay behind its normal form (`sources_of_found`).
-/

namespace GroovyWorkspace

open CompilationUnit

namespace Path

theorem normalize_congr {p q : Path} (h : p.same q = true) : p.normalize = q.normalize := by
  rw [normalize, normalize, same_iff.mp h]

end Path

namespace UnitFactory

/-! ## The sources of a first build -/

theorem mem_sources_of_create {fs : FileSystem} {f g : UnitFactory} {root : Option Path} {b : Buffers}
    {u : CompilationUnit} (hb : b.texts.Sorted) (hnone : f.cached = none)
    (hc : f.create fs root b = .ok (u, g)) {s : Source} :
    s ∈ u.sources ↔ ∃ p, sourceAt fs root b p = some s := by
  rw [mem_sources_iff (sorted_of_create (by simp [hnone]) hc)]
  have hsource : ∀ p, u.source? p = sourceAt fs root b p := by
    intro p
    rw [source?_of_create hb hc, hnone]
    rfl
  simp only [hsource]

end UnitFactory

namespace CompilationUnit

theorem sourceAt_eq_disk_iff {fs : FileSystem} {root p q : Path} {b : Buffers} :
    sourceAt fs (some root) b p = some ⟨q, .disk⟩ ↔
      b.isOpen p = false ∧ fileAt fs (some root) p = some q := by
  rw [sourceAt, Buffers.isOpen, PathMap.contains_eq_isSome_stored?]
  cases b.texts.stored? p with
  | none => simp
  | some e => simp

theorem mem_filesOf_of_fileAt {fs : FileSystem} {root p q : Path} (h : fileAt fs (some root) p = some q) :
    q ∈ filesOf fs root :=
  List.mem_reverse.mp (List.mem_of_find?_eq_some h)

theorem exists_fileAt_of_mem {fs : FileSystem} {root p : Path} (h : p ∈ filesOf fs root) :
    ∃ q, fileAt fs (some root) p = some q := by
  rw [← Option.isSome_iff_exists, isSome_fileAt, isListed]
  exact List.any_eq_true.mpr ⟨p, h, Path.same_self p⟩

theorem isBelow_of_sourceAt {fs : FileSystem} {root p : Path} {b : Buffers} {s : Source}
    (h : sourceAt fs (some root) b p = some s) (hopen : s.isOpen = true) :
    isBelow root s.path = true := by
  unfold sourceAt at h
  split at h
  · split at h
    · rename_i hbelow
      cases h
      exact hbelow
    · cases h
  · obtain ⟨q, -, rfl⟩ := Option.map_eq_some_iff.mp h
    cases hopen

/-! ## Files beside their buffers -/

/-- A source taken from disk although a buffer is open below the root whose path has the same normal
form. -/
def DoublesBuffer (root : Path) (b : Buffers) (s : Source) : Prop :=
  s.origin = .disk ∧
    ∃ q ∈ b.openPaths, isBelow root q = true ∧ s.path.normalize.same q.normalize = true

theorem isBelow_of_components {root q : Path} {ns : List Name}
    (h : q.normalize.components = root.normalize.components ++ ns.map .name) : isBelow root q = true := by
  rw [isBelow, Path.startsWith, List.isPrefixOf_iff_prefix, h]
  exact List.prefix_append _ _

/-- Names stay behind the normal form of the root. -/
theorem components_normalize_under (root : Path) {ns : List Name} (hns : ∀ n ∈ ns, IsName n) :
    (root.under ns).normalize.components = root.normalize.components ++ ns.map .name := by
  rw [Path.components_normalize, Path.components_normalize, Path.components_under root hns,
    Path.normalComponents_append_names]

/-- The buffer `q` is spelled differently from the file that `ns` leads to from the root: it adds the same
names to the normal form of the root, but the file is not open in the spelling in which it is found. -/
structure Respells (fs : FileSystem) (root : Path) (b : Buffers) (q : Path) (ns : List Name) : Prop where
  names : ∀ n ∈ ns, IsName n
  found : root.under ns ∈ filesOf fs root
  closed : b.isOpen (root.under ns) = false
  adds : q.normalize.components = root.normalize.components ++ ns.map .name

/-- A file taken from disk is respelled by what has the same normal form. -/
theorem exists_respells {fs : FileSystem} (hfs : fs.WellNamed) {root p q file : Path} {b : Buffers}
    (h : sourceAt fs (some root) b p = some ⟨file, .disk⟩)
    (hsame : file.normalize.same q.normalize = true) : ∃ ns, Respells fs root b q ns := by
  obtain ⟨hopen, hfile⟩ := sourceAt_eq_disk_iff.mp h
  obtain ⟨ns, hns, rfl⟩ := fileAt_under hfs hfile
  have hspelled : p.same (root.under ns) = true := List.find?_some hfile
  refine ⟨ns, hns, mem_filesOf_of_fileAt hfile, ?_, ?_⟩
  · rw [← Buffers.isOpen_congr hspelled, hopen]
  · rw [← components_normalize_under root hns]
    exact (Path.same_iff.mp hsame).symm

theorem Respells.exists_sourceAt {fs : FileSystem} {root q : Path} {b : Buffers} {ns : List Name}
    (h : Respells fs root b q ns) :
    ∃ p file, sourceAt fs (some root) b p = some ⟨file, .disk⟩ ∧
      file.normalize.same q.normalize = true := by
  obtain ⟨file, hfile⟩ := exists_fileAt_of_mem h.found
  have hspelled : (root.under ns).same file = true := List.find?_some hfile
  refine ⟨root.under ns, file, sourceAt_eq_disk_iff.mpr ⟨h.closed, hfile⟩, ?_⟩
  rw [← Path.normalize_congr hspelled, Path.same_iff, components_normalize_under root h.names, h.adds]

theorem Respells.components_ne {fs : FileSystem} {root q : Path} {b : Buffers} {ns : List Name}
    (h : Respells fs root b q ns) (hq : q ∈ b.openPaths) (ms : List Name) :
    q.components ≠ root.components ++ ms.map .name := by
  intro hms
  have hadds := h.adds
  -- the root in front settles to the same, so the buffer adds the names in the spelling of the file
  rw [Path.components_normalize, Path.components_normalize, hms, Path.normalComponents_append_names,
    List.append_cancel_left_eq] at hadds
  rw [hadds, ← Path.components_under root h.names] at hms
  have hclosed := h.closed
  rw [← Buffers.isOpen_congr (Path.same_iff.mpr hms), Buffers.isOpen_of_mem_openPaths hq] at hclosed
  cases hclosed

/-- **Files beside their buffers.** A first build for a root compiles some file from disk beside its
buffer exactly if some buffer respells a file under the root. This cannot happen where every buffer that
adds names to the root is spelled with the root in front. -/
theorem exists_doublesBuffer_iff {fs : FileSystem} (hfs : fs.WellNamed) (root : Path)
    (edits : List Buffers.Edit) {f g : UnitFactory} {u : CompilationUnit} (hnone : f.cached = none)
    (hc : f.create fs (some root) (.after edits) = .ok (u, g)) :
    ((∃ s ∈ u.sources, DoublesBuffer root (.after edits) s) ↔
      ∃ q ∈ (Buffers.after edits).openPaths, ∃ ns, Respells fs root (.after edits) q ns) ∧
      ((∀ q ∈ (Buffers.after edits).openPaths, Path.AddsNames root q →
          ∃ ns : List Name, q.components = root.components ++ ns.map .name) →
        ∀ s ∈ u.sources, ¬ DoublesBuffer root (.after edits) s) := by
  have hsources : ∀ s, s ∈ u.sources ↔ ∃ p, sourceAt fs (some root) (.after edits) p = some s :=
    fun _ => UnitFactory.mem_sources_of_create (Buffers.sorted_texts_after edits) hnone hc
  have hrespells : ∀ s ∈ u.sources, DoublesBuffer root (.after edits) s →
      ∃ q ∈ (Buffers.after edits).openPaths, ∃ ns, Respells fs root (.after edits) q ns := by
    rintro ⟨file, -⟩ hs ⟨rfl, q, hq, -, hsame⟩
    obtain ⟨p, hp⟩ := (hsources _).mp hs
    exact ⟨q, hq, exists_respells hfs hp hsame⟩
  refine ⟨⟨fun ⟨s, hs, hdoubles⟩ => hrespells s hs hdoubles, ?_⟩, fun hspelling s hs hdoubles => ?_⟩
  · rintro ⟨q, hq, ns, h⟩
    obtain ⟨p, file, hp, hsame⟩ := h.exists_sourceAt
    exact ⟨_, (hsources _).mpr ⟨p, hp⟩, rfl, q, hq, isBelow_of_components h.adds, hsame⟩
  · obtain ⟨q, hq, ns, h⟩ := hrespells s hs hdoubles
    obtain ⟨ms, hms⟩ := hspelling q hq ⟨ns, h.adds⟩
    exact h.components_ne hq ms hms

/-- The buffer `/ws/src/../a.groovy` stands beside the file `/ws/a.groovy`. -/
theorem exists_doublesBuffer_dotted :
    ∃ u g, UnitFactory.empty.create (.oneFolder "ws" ["a.groovy"]) (some (Path.ofString "/ws"))
        (.after [.put (Path.ofString "/ws/src/../a.groovy") "x"]) = .ok (u, g) ∧
      u.sources = [⟨Path.ofString "/ws/a.groovy", .disk⟩,
        ⟨Path.ofString "/ws/src/../a.groovy", .buffer "x"⟩] ∧
      ∃ s ∈ u.sources, DoublesBuffer (Path.ofString "/ws")
        (.after [.put (Path.ofString "/ws/src/../a.groovy") "x"]) s := by
  have hfs : (FileSystem.oneFolder "ws" ["a.groovy"]).WellNamed :=
    (FileSystem.wellFormed_oneFolder (by decide) (by decide) (by decide)).named
  have hcreate : UnitFactory.empty.create (.oneFolder "ws" ["a.groovy"])
      (some (Path.ofString "/ws")) (.after [.put (Path.ofString "/ws/src/../a.groovy") "x"]) =
        .ok (_, _) := rfl
  have hfiles : filesOf (.oneFolder "ws" ["a.groovy"]) (Path.ofString "/ws") =
      [Path.ofString "/ws/a.groovy"] := by cbv
  refine ⟨_, _, hcreate, by cbv, (exists_doublesBuffer_iff hfs _ _ rfl hcreate).1.mpr ?_⟩
  refine ⟨_, List.mem_singleton_self _, [Text.encode "a.groovy"], by decide, ?_, by decide, by decide⟩
  rw [hfiles]
  decide

/-! ## Buffers outside of their root -/

/-- **Buffers outside of their root.** A buffer that a first build takes for a root lies below the root
from every folder exactly if it adds names to the root, as it does wherever the root is absolute or has
a name. -/
theorem forall_isBelow_join_iff {fs : FileSystem} {root : Path} {edits : List Buffers.Edit}
    {f g : UnitFactory} {u : CompilationUnit} (hnone : f.cached = none)
    (hc : f.create fs (some root) (.after edits) = .ok (u, g)) {s : Source} (hs : s ∈ u.sources)
    (hopen : s.isOpen = true) :
    ((∀ cwd : Path, cwd.isAbsolute = true → isBelow (cwd.join root) (cwd.join s.path) = true) ↔
        Path.AddsNames root s.path) ∧
      ((root.isAbsolute = true ∨ ∃ n, .name n ∈ root.normalize.components) →
        ∀ cwd : Path, cwd.isAbsolute = true → isBelow (cwd.join root) (cwd.join s.path) = true) := by
  obtain ⟨p, hp⟩ :=
    (UnitFactory.mem_sources_of_create (Buffers.sorted_texts_after edits) hnone hc).mp hs
  have hbelow := isBelow_of_sourceAt hp hopen
  have hiff := Path.forall_startsWith_join_iff hbelow
  exact ⟨hiff, fun hroot => hiff.mpr (Path.addsNames_of_isAbsolute_or_name hbelow hroot)⟩

/-- The buffer `/abs.groovy` is taken for the root `.`, though it is not below `/ws` when `/ws` is the
folder that `.` stands for. -/
theorem forall_isBelow_join_iff_dot :
    ∃ u g, UnitFactory.empty.create (.oneFolder "ws" []) (some (Path.ofString "."))
        (.after [.put (Path.ofString "/abs.groovy") "x"]) = .ok (u, g) ∧
      u.sources = [⟨Path.ofString "/abs.groovy", .buffer "x"⟩] ∧
      isBelow ((Path.ofString "/ws").join (Path.ofString "."))
        ((Path.ofString "/ws").join (Path.ofString "/abs.groovy")) = false ∧
      ¬ Path.AddsNames (Path.ofString ".") (Path.ofString "/abs.groovy") := by
  have houtside : isBelow ((Path.ofString "/ws").join (Path.ofString "."))
      ((Path.ofString "/ws").join (Path.ofString "/abs.groovy")) = false := by decide
  obtain ⟨u, g, hcreate, hsources⟩ :
      ∃ u g, UnitFactory.empty.create (.oneFolder "ws" []) (some (Path.ofString "."))
          (.after [.put (Path.ofString "/abs.groovy") "x"]) = .ok (u, g) ∧
        u.sources = [⟨Path.ofString "/abs.groovy", .buffer "x"⟩] := ⟨_, _, rfl, by cbv⟩
  refine ⟨u, g, hcreate, hsources, houtside, fun hadds => ?_⟩
  have hmem : (⟨Path.ofString "/abs.groovy", .buffer "x"⟩ : Source) ∈ u.sources := by
    rw [hsources]
    exact List.mem_singleton_self _
  have hall := (forall_isBelow_join_iff rfl hcreate hmem rfl).1.mpr hadds
  rw [hall (Path.ofString "/ws") rfl] at houtside
  cases houtside

/-! ## Files that are found -/

theorem filesOf_of_groovyFiles {fs : FileSystem} {root : Path} {files : List Path}
    (hpresent : fs.isPresent root = true) (h : fs.groovyFiles root = .ok files) :
    filesOf fs root = files := by
  rw [filesOf, if_pos hpresent, h]
  rfl

theorem fileAt_of_mem {fs : FileSystem} (hfs : fs.WellNamed) {root p : Path} (h : p ∈ filesOf fs root) :
    fileAt fs (some root) p = some p := by
  obtain ⟨q, hq⟩ := exists_fileAt_of_mem h
  obtain ⟨ns, hns, rfl⟩ := filesOf_under hfs h
  obtain ⟨ms, hms, rfl⟩ := fileAt_under hfs hq
  have hsame : (root.under ns).same (root.under ms) = true := List.find?_some hq
  rw [hq, Path.under_injective hns hms (Path.same_iff.mp hsame)]

/-- A file that is found passes the test for buffers, in whatever spelling it is open. -/
theorem isBelow_of_found {fs : FileSystem} (hfs : fs.WellNamed) {root p q : Path}
    (h : p ∈ filesOf fs root) (hsame : p.same q = true) : isBelow root q = true := by
  obtain ⟨ns, hns, rfl⟩ := filesOf_under hfs h
  have hadds : q.normalize.components = root.normalize.components ++ ns.map .name := by
    rw [← Path.normalize_congr hsame, components_normalize_under root hns]
  exact isBelow_of_components hadds

theorem sourceAt_of_buffer {fs : FileSystem} {root p : Path} {b : Buffers} {e : Path × String}
    (he : b.texts.stored? p = some e) (hbelow : isBelow root e.1 = true) :
    sourceAt fs (some root) b p = some ⟨e.1, .buffer e.2⟩ := by
  rw [sourceAt, he]
  exact if_pos hbelow

/-- **No file gets lost.** Of the files that are found below a root, a first build compiles those that are
open from their buffers, with the current text, and the others from disk. All other sources are open
buffers whose normal form begins with that of the root, and there is no such buffer that is not a
source. -/
theorem sources_of_found {fs : FileSystem} (hfs : fs.WellNamed) {root : Path} {files : List Path}
    (hpresent : fs.isPresent root = true) (hfiles : fs.groovyFiles root = .ok files)
    (edits : List Buffers.Edit) {f g : UnitFactory} {u : CompilationUnit} (hnone : f.cached = none)
    (hc : f.create fs (some root) (.after edits) = .ok (u, g)) :
    (∀ p ∈ files,
        (∀ text, (Buffers.after edits).text? p = some text →
          ∃ q, q.same p = true ∧ u.source? p = some ⟨q, .buffer text⟩) ∧
        ((Buffers.after edits).isOpen p = false → u.source? p = some ⟨p, .disk⟩)) ∧
      (∀ s ∈ u.sources, (∀ p ∈ files, s.path.same p = false) →
        IsOpenBuffer (.after edits) s ∧ s.path.normalize.startsWith root.normalize = true) ∧
      ∀ q ∈ (Buffers.after edits).openPaths, q.normalize.startsWith root.normalize = true →
        ∃ text, (Buffers.after edits).text? q = some text ∧ u.source? q = some ⟨q, .buffer text⟩ := by
  have hb : (Buffers.after edits).texts.Sorted := Buffers.sorted_texts_after edits
  have hsource : ∀ p, u.source? p = sourceAt fs (some root) (.after edits) p := by
    intro p
    rw [UnitFactory.source?_of_create hb hc, hnone]
    rfl
  rw [← filesOf_of_groovyFiles hpresent hfiles]
  refine ⟨fun p hp => ⟨fun text htext => ?_, fun hclosed => ?_⟩, fun s hs hother => ?_,
    fun q hq hbelow => ?_⟩
  · rw [Buffers.text?, PathMap.get?_eq_stored?] at htext
    obtain ⟨e, he, rfl⟩ := Option.map_eq_some_iff.mp htext
    have hsame : p.same e.1 = true := PathMap.same_of_stored? he
    refine ⟨e.1, (Path.same_comm _ _).trans hsame, ?_⟩
    rw [hsource, sourceAt_of_buffer he (isBelow_of_found hfs hp hsame)]
  · rw [hsource, sourceAt_eq_disk_iff]
    exact ⟨hclosed, fileAt_of_mem hfs hp⟩
  · obtain ⟨p, hp⟩ := (UnitFactory.mem_sources_of_create hb hnone hc).mp hs
    rcases honours_sourceAt hb hp with hfound | hbuffer
    · obtain ⟨file, hfile, hsame⟩ := List.any_eq_true.mp hfound
      rw [hother file hfile] at hsame
      cases hsame
    · exact hbuffer
  · obtain ⟨e, he, rfl⟩ := List.mem_map.mp hq
    have hstored := hb.stored?_of_mem he
    exact ⟨e.2, Buffers.text?_of_stored? hb.distinct hstored,
      by rw [hsource, sourceAt_of_buffer hstored hbelow]⟩

/-- With the root `/ws/../ws` the file `a.groovy` is open in another spelling, `b.groovy` is not open, and
the buffer `/ws/new.groovy` has no file. -/
theorem sources_of_found_dottedRoot :
    ∃ u g, UnitFactory.empty.create (.oneFolder "ws" ["a.groovy", "b.groovy"])
        (some (Path.ofString "/ws/../ws"))
        (.after [.put (Path.ofString "/ws/..//ws/a.groovy") "x", .put (Path.ofString "/ws/new.groovy") "y"]) =
          .ok (u, g) ∧
      (FileSystem.oneFolder "ws" ["a.groovy", "b.groovy"]).groovyFiles (Path.ofString "/ws/../ws") =
        .ok [Path.ofString "/ws/../ws/a.groovy", Path.ofString "/ws/../ws/b.groovy"] ∧
      (∃ q, q.same (Path.ofString "/ws/../ws/a.groovy") = true ∧
        u.source? (Path.ofString "/ws/../ws/a.groovy") = some ⟨q, .buffer "x"⟩) ∧
      u.source? (Path.ofString "/ws/../ws/b.groovy") = some ⟨Path.ofString "/ws/../ws/b.groovy", .disk⟩ ∧
      ∃ text, u.source? (Path.ofString "/ws/new.groovy") =
        some ⟨Path.ofString "/ws/new.groovy", .buffer text⟩ := by
  have hfs : (FileSystem.oneFolder "ws" ["a.groovy", "b.groovy"]).WellNamed :=
    (FileSystem.wellFormed_oneFolder (by decide) (by decide) (by decide)).named
  have hfiles : (FileSystem.oneFolder "ws" ["a.groovy", "b.groovy"]).groovyFiles (Path.ofString "/ws/../ws") =
      .ok [Path.ofString "/ws/../ws/a.groovy", Path.ofString "/ws/../ws/b.groovy"] := by cbv
  have hcreate : UnitFactory.empty.create (.oneFolder "ws" ["a.groovy", "b.groovy"])
      (some (Path.ofString "/ws/../ws")) (.after [.put (Path.ofString "/ws/..//ws/a.groovy") "x",
        .put (Path.ofString "/ws/new.groovy") "y"]) = .ok (_, _) := rfl
  obtain ⟨hfound, -, hbuffers⟩ := sources_of_found hfs (by decide) hfiles _ rfl hcreate
  obtain ⟨text, -, hnew⟩ := hbuffers (Path.ofString "/ws/new.groovy") (by decide) (by decide)
  exact ⟨_, _, hcreate, hfiles, (hfound _ (by simp)).1 "x" (by decide), (hfound _ (by simp)).2 (by decide),
    text, hnew⟩

end CompilationUnit
end GroovyWorkspace
