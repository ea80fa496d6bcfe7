import GroovyWorkspace.Proofs.Except
import GroovyWorkspace.Proofs.Settings.Layers
import GroovyWorkspace.Proofs.Settings.Lookup
import GroovyWorkspace.Settings.Load

/-!
# Settings files as layers

A settings file is missing, holds a document, or is refused for one of four reasons
(`loadOptional_eq_error_iff`, `loadOptional_eq_ok_iff`). Files that are there become layers in the order
of their scopes, and a key has the value of the last layer that defines it (`yields_concat`).
-/

namespace GroovyWorkspace

namespace Settings

/-! ## What a file holds -/

/-- The reasons for which a settings file is refused. A file that is not there is not refused. -/
inductive Refused (fs : FileSystem) (p : Path) : LoadError → Prop
  | unreadable {cause : OsError} (hread : fs.readText p = .error cause) (hcause : cause ≠ .notFound) :
    Refused fs p (.io p cause)
  | unsupported {text : String} (hread : fs.readText p = .ok text)
    (hblank : Text.isAllBlank text = false) (hformat : Format.ofExtension? (extensionOf p) = none) :
    Refused fs p (.unsupportedFormat (extensionOf p))
  | malformed {text : String} {format : Format} {cause : SyntaxError} (hread : fs.readText p = .ok text)
    (hblank : Text.isAllBlank text = false)
    (hformat : Format.ofExtension? (extensionOf p) = some format)
    (hvalue : format.read text = .error cause) : Refused fs p (.parse p cause)
  | notAnObject {text : String} {format : Format} {v : Value} (hread : fs.readText p = .ok text)
    (hblank : Text.isAllBlank text = false)
    (hformat : Format.ofExtension? (extensionOf p) = some format) (hvalue : format.read text = .ok v)
    (hobject : ∀ entries, v ≠ .object entries) : Refused fs p (.notAnObject p)

/-- What is read of a settings file that is not refused: nothing if it is not there, the empty document
if it is blank, and otherwise the object that it spells. -/
inductive Reads (fs : FileSystem) (p : Path) : Option Settings → Prop
  | missing (hread : fs.readText p = .error .notFound) : Reads fs p none
  | blank {text : String} (hread : fs.readText p = .ok text) (hblank : Text.isAllBlank text = true) :
    Reads fs p (some empty)
  | object {text : String} {format : Format} {entries : Entries} (hread : fs.readText p = .ok text)
    (hblank : Text.isAllBlank text = false)
    (hformat : Format.ofExtension? (extensionOf p) = some format)
    (hvalue : format.read text = .ok (.object entries)) : Reads fs p (some ⟨entries⟩)

/-- What is read where there may be no path to a settings file. -/
inductive ReadsAt (fs : FileSystem) : Option Path → Option Settings → Prop
  | nowhere : ReadsAt fs none none
  | file {p : Path} {d : Option Settings} (h : Reads fs p d) : ReadsAt fs (some p) d

theorem ofValue?_eq_some_iff {v : Value} {s : Settings} : ofValue? v = some s ↔ v = .object s.entries := by
  cases v with
  | object entries =>
    constructor
    · intro h
      cases h
      rfl
    · intro h
      cases h
      rfl
  | _ => exact ⟨nofun, nofun⟩

theorem ofText_of_not_blank {p : Path} {text : String} (hblank : Text.isAllBlank text = false)
    {format : Format} (hformat : Format.ofExtension? (extensionOf p) = some format) :
    ofText p text =
      match format.read text with
      | .error e => .error (.parse p e)
      | .ok v =>
        match ofValue? v with
        | some s => .ok s
        | none => .error (.notAnObject p) := by
  rw [ofText, if_neg (by rw [hblank]; exact Bool.false_ne_true)]
  generalize Format.ofExtension? (extensionOf p) = known at hformat
  subst hformat
  rfl

theorem loadOptional_of_readText {fs : FileSystem} {p : Path} {text : String}
    (hread : fs.readText p = .ok text) : loadOptional fs p = (ofText p text).map some := by
  rw [loadOptional, hread]

theorem Refused.loadOptional {fs : FileSystem} {p : Path} {err : LoadError} (h : Refused fs p err) :
    loadOptional fs p = .error err := by
  cases h with
  | @unreadable cause hread hcause =>
    rw [Settings.loadOptional, hread]
    cases cause <;> first | exact absurd rfl hcause | rfl
  | unsupported hread hblank hformat =>
    rw [loadOptional_of_readText hread, ofText, if_neg (by rw [hblank]; exact Bool.false_ne_true), hformat]
    rfl
  | malformed hread hblank hformat hvalue =>
    rw [loadOptional_of_readText hread, ofText_of_not_blank hblank hformat, hvalue]
    rfl
  | @notAnObject text format v hread hblank hformat hvalue hobject =>
    have hnone : ofValue? v = none := by
      rw [Option.eq_none_iff_forall_ne_some]
      intro s hs
      exact hobject _ (ofValue?_eq_some_iff.mp hs)
    simp only [loadOptional_of_readText hread, ofText_of_not_blank hblank hformat, hvalue, hnone]
    rfl

theorem Reads.loadOptional {fs : FileSystem} {p : Path} {d : Option Settings} (h : Reads fs p d) :
    loadOptional fs p = .ok d := by
  cases h with
  | missing hread => rw [Settings.loadOptional, hread]
  | blank hread hblank =>
    rw [loadOptional_of_readText hread, ofText, if_pos hblank]
    rfl
  | object hread hblank hformat hvalue =>
    rw [loadOptional_of_readText hread, ofText_of_not_blank hblank hformat, hvalue]
    rfl

theorem refused_or_reads (fs : FileSystem) (p : Path) :
    (∃ err, Refused fs p err) ∨ ∃ d, Reads fs p d := by
  cases hread : fs.readText p with
  | error cause =>
    by_cases hcause : cause = .notFound
    · exact .inr ⟨_, .missing (hcause ▸ hread)⟩
    · exact .inl ⟨_, .unreadable hread hcause⟩
  | ok text =>
    cases hblank : Text.isAllBlank text with
    | true => exact .inr ⟨_, .blank hread hblank⟩
    | false =>
      cases hformat : Format.ofExtension? (extensionOf p) with
      | none => exact .inl ⟨_, .unsupported hread hblank hformat⟩
      | some format =>
        cases hvalue : format.read text with
        | error cause => exact .inl ⟨_, .malformed hread hblank hformat hvalue⟩
        | ok v =>
          by_cases hobject : ∃ entries, v = .object entries
          · obtain ⟨entries, rfl⟩ := hobject
            exact .inr ⟨_, .object hread hblank hformat hvalue⟩
          · exact .inl ⟨_, .notAnObject hread hblank hformat hvalue (not_exists.mp hobject)⟩

theorem loadOptional_eq_error_iff {fs : FileSystem} {p : Path} {err : LoadError} :
    loadOptional fs p = .error err ↔ Refused fs p err := by
  refine ⟨fun h => ?_, Refused.loadOptional⟩
  rcases refused_or_reads fs p with ⟨other, hother⟩ | ⟨d, hd⟩
  · rw [hother.loadOptional] at h
    cases h
    exact hother
  · rw [hd.loadOptional] at h
    cases h

theorem loadOptional_eq_ok_iff {fs : FileSystem} {p : Path} {d : Option Settings} :
    loadOptional fs p = .ok d ↔ Reads fs p d := by
  refine ⟨fun h => ?_, Reads.loadOptional⟩
  rcases refused_or_reads fs p with ⟨err, herr⟩ | ⟨other, hother⟩
  · rw [herr.loadOptional] at h
    cases h
  · rw [hother.loadOptional] at h
    cases h
    exact hother

theorem Refused.unique {fs : FileSystem} {p : Path} {err other : LoadError} (herr : Refused fs p err)
    (hother : Refused fs p other) : err = other := by
  have hboth := herr.loadOptional.symm.trans hother.loadOptional
  cases hboth
  rfl

theorem Reads.unique {fs : FileSystem} {p : Path} {d other : Option Settings} (hd : Reads fs p d)
    (hother : Reads fs p other) : d = other := by
  have hboth := hd.loadOptional.symm.trans hother.loadOptional
  cases hboth
  rfl

theorem Reads.not_refused {fs : FileSystem} {p : Path} {d : Option Settings} (h : Reads fs p d)
    (err : LoadError) : ¬ Refused fs p err := by
  intro herr
  have hboth := h.loadOptional.symm.trans herr.loadOptional
  cases hboth

theorem ReadsAt.not_refused {fs : FileSystem} {file : Option Path} {d : Option Settings}
    (h : ReadsAt fs file d) (err : LoadError) : ¬ ∃ p ∈ file, Refused fs p err := by
  rintro ⟨p, hp, herr⟩
  cases h with
  | nowhere => cases hp
  | file h =>
    cases hp
    exact h.not_refused err herr

theorem refused_or_readsAt (fs : FileSystem) (file : Option Path) :
    (∃ err, ∃ p ∈ file, Refused fs p err) ∨ ∃ d, ReadsAt fs file d := by
  cases file with
  | none => exact .inr ⟨none, .nowhere⟩
  | some p =>
    rcases refused_or_reads fs p with ⟨err, herr⟩ | ⟨d, hd⟩
    · exact .inl ⟨err, p, rfl, herr⟩
    · exact .inr ⟨d, .file hd⟩

end Settings

namespace LayeredSettings

/-! ## Files as layers -/

/-- The layer that a file becomes, if it is there. -/
def layerOf (scope : Scope) (d : Option Settings) : List (Scope × Settings) := (d.map (scope, ·)).toList

theorem pushFile_of_reads {fs : FileSystem} {p : Path} {d : Option Settings} (h : Settings.Reads fs p d)
    {l : LayeredSettings} {scope : Scope} (hl : ∀ layer ∈ l.layers, layer.1.rank ≤ scope.rank) :
    l.pushFile fs scope p = .ok ⟨l.layers ++ layerOf scope d⟩ := by
  rw [pushFile, h.loadOptional]
  cases d with
  | none =>
    show Except.ok l = _
    rw [layerOf, Option.map_none, Option.toList_none, List.append_nil]
  | some s =>
    have hpush := layers_push (List.append_nil _).symm hl (by simp) s
    show Except.ok (l.push scope s) = _
    rw [layerOf, Option.map_some, Option.toList_some, ← hpush]

theorem pushFile_of_refused {fs : FileSystem} {p : Path} {err : LoadError}
    (h : Settings.Refused fs p err) (l : LayeredSettings) (scope : Scope) :
    l.pushFile fs scope p = .error err := by
  rw [pushFile, h.loadOptional]
  rfl

theorem pushFile_workspace {fs : FileSystem} {p : Path} {w : Option Settings}
    (hw : Settings.Reads fs p w) (u : Option Settings) :
    pushFile ⟨layerOf .user u⟩ fs .workspace p = .ok ⟨layerOf .user u ++ layerOf .workspace w⟩ := by
  refine pushFile_of_reads hw fun layer hlayer => ?_
  obtain ⟨s, -, rfl⟩ := Option.map_eq_some_iff.mp (Option.mem_toList.mp hlayer)
  exact Nat.le_succ 1

theorem pushFile_user {fs : FileSystem} {user : Path} {u : Option Settings}
    (hu : Settings.Reads fs user u) : empty.pushFile fs .user user = .ok ⟨layerOf .user u⟩ :=
  pushFile_of_reads hu (by simp [empty])

theorem discover_eq_bind (fs : FileSystem) (user root : Path) :
    discover fs (some user) (some root) =
      empty.pushFile fs .user user >>= fun l =>
        l.pushFile fs .workspace (root.join Settings.workspaceFile) := rfl

theorem discover_of_readsAt {fs : FileSystem} {user : Option Path} {u : Option Settings}
    (hu : Settings.ReadsAt fs user u) (root : Path) :
    discover fs user (some root) =
      pushFile ⟨layerOf .user u⟩ fs .workspace (root.join Settings.workspaceFile) := by
  cases hu with
  | nowhere => rfl
  | file hu =>
    rw [discover_eq_bind, pushFile_user hu]
    rfl

theorem discover_of_reads {fs : FileSystem} {user : Option Path} {root : Path} {u w : Option Settings}
    (hu : Settings.ReadsAt fs user u) (hw : Settings.Reads fs (root.join Settings.workspaceFile) w) :
    discover fs user (some root) = .ok ⟨layerOf .user u ++ layerOf .workspace w⟩ := by
  rw [discover_of_readsAt hu, pushFile_workspace hw]

/-- The user's file is loaded first, so its fault is the one that is reported. -/
theorem discover_eq_error_iff {fs : FileSystem} {user : Option Path} {root : Path} {err : LoadError} :
    discover fs user (some root) = .error err ↔
      (∃ p ∈ user, Settings.Refused fs p err) ∨
        (∀ other, ¬ ∃ p ∈ user, Settings.Refused fs p other) ∧
          Settings.Refused fs (root.join Settings.workspaceFile) err := by
  rcases Settings.refused_or_readsAt fs user with ⟨fault, p, hp, hfault⟩ | ⟨u, hu⟩
  · obtain rfl := hp
    rw [discover_eq_bind, pushFile_of_refused hfault]
    constructor
    · intro h
      cases h
      exact .inl ⟨p, rfl, hfault⟩
    · rintro (⟨q, hq, h⟩ | ⟨hnone, -⟩)
      · cases hq
        rw [hfault.unique h]
        rfl
      · exact absurd ⟨p, rfl, hfault⟩ (hnone fault)
  · rw [discover_of_readsAt hu]
    rcases Settings.refused_or_reads fs (root.join Settings.workspaceFile) with
      ⟨fault, hfault⟩ | ⟨w, hw⟩
    · rw [pushFile_of_refused hfault]
      constructor
      · intro h
        cases h
        exact .inr ⟨hu.not_refused, hfault⟩
      · rintro (h | ⟨-, h⟩)
        · exact absurd h (hu.not_refused err)
        · rw [hfault.unique h]
    · rw [pushFile_workspace hw]
      constructor
      · nofun
      · rintro (h | ⟨-, h⟩)
        · exact absurd h (hu.not_refused err)
        · exact absurd h (hw.not_refused err)

/-! ## The value and the scope of a key -/

/-- What layers give for a key: a value and the scope that it comes from, or neither. -/
def Yields (l : LayeredSettings) (key : String) (r : Option (Scope × Value)) : Prop :=
  l.get? key = r.map Prod.snd ∧ l.scopeOf? key = r.map Prod.fst

def offer (scope : Scope) (s : Settings) (key : String) : Option (Scope × Value) :=
  (s.get? key).map (scope, ·)

theorem yields_nil (key : String) : Yields ⟨[]⟩ key none := ⟨rfl, rfl⟩

/-- The last layer counts if it defines the key, and otherwise those before it. -/
theorem yields_concat {layers : List (Scope × Settings)} {key : String} {r : Option (Scope × Value)}
    (h : Yields ⟨layers⟩ key r) (scope : Scope) (s : Settings) :
    Yields ⟨layers ++ [(scope, s)]⟩ key ((offer scope s key).or r) := by
  have hlast : (layers ++ [(scope, s)]).reverse = (scope, s) :: layers.reverse := by
    rw [List.reverse_append, List.reverse_singleton, List.singleton_append]
  rw [Yields, get?, scopeOf?, hlast, List.findSome?_cons, List.find?_cons, offer]
  cases s.get? key with
  | none => exact h
  | some v => exact ⟨rfl, rfl⟩

theorem yields_append_layerOf {layers : List (Scope × Settings)} {key : String}
    {r : Option (Scope × Value)} (h : Yields ⟨layers⟩ key r) (scope : Scope) (d : Option Settings) :
    Yields ⟨layers ++ layerOf scope d⟩ key ((d.bind (offer scope · key)).or r) := by
  cases d with
  | none => rwa [layerOf, Option.map_none, Option.toList_none, List.append_nil]
  | some s => exact yields_concat h scope s

end LayeredSettings
end GroovyWorkspace
