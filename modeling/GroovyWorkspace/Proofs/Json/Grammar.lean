import GroovyWorkspace.Proofs.Json.Scalar

/-!
# The grammar of JSON

`Spells depth v ts` says that the tokens `ts` are a value `v` with fewer than `depth` levels of brackets.
A text is read as `v` exactly if its tokens spell `v` (`parse_eq_ok_iff`), so that white space between
tokens never matters.
-/

namespace GroovyWorkspace.Json

/-- The elements between two brackets, from behind the opening one if `first` holds and from behind an
element otherwise. -/
inductive Listed {α : Type} (P : α → List Token → Prop) : Bool → List α → List Token → Prop
  | nil {first : Bool} : Listed P first [] []
  | first {a : α} {as : List α} {ts more : List Token} (ha : P a ts) (h : Listed P false as more) :
    Listed P true (a :: as) (ts ++ more)
  | next {a : α} {as : List α} {ts more : List Token} (ha : P a ts) (h : Listed P false as more) :
    Listed P false (a :: as) (.mark ',' :: (ts ++ more))

inductive EntrySpells (P : Value → List Token → Prop) : String × Value → List Token → Prop
  | mk {body : List Char} {key : String} {v : Value} {ts : List Token}
    (hkey : literal (body ++ ['"']) = .ok (key, [])) (hv : P v ts) :
    EntrySpells P (key, v) (.literal body :: .mark ':' :: ts)

/-- A value whose elements are spelled by `P`. Scalars have the value that they are read as by
themselves. -/
inductive LevelSpells (depth : Nat) (P : Value → List Token → Prop) : Value → List Token → Prop
  | bare {w : List Char} {v : Value} (h : value 1 w = .ok (v, [])) : LevelSpells depth P v [.bare w]
  | string {body : List Char} {s : String} (h : literal (body ++ ['"']) = .ok (s, [])) :
    LevelSpells depth P (.string s) [.literal body]
  | array {vs : List Value} {ts : List Token} (hd : depth ≠ 0) (h : Listed P true vs ts) :
    LevelSpells depth P (.array vs) (.mark '[' :: (ts ++ [.mark ']']))
  | object {ms : List (String × Value)} {ts : List Token} (hd : depth ≠ 0)
    (h : Listed (EntrySpells P) true ms ts) :
    LevelSpells depth P (.object (Entries.ofList ms)) (.mark '{' :: (ts ++ [.mark '}']))

/-- The tokens of a value with fewer than `depth` levels of brackets. -/
def Spells : Nat → Value → List Token → Prop
  | 0 => fun _ _ => False
  | depth + 1 => LevelSpells depth (Spells depth)

/-! ## White space and marks -/

/-- The first character behind white space is not white space. -/
theorem isSpace_of_skipSpace {c : Char} {cs rest : List Char} (h : skipSpace cs = c :: rest) :
    isSpace c = false := by
  rw [skipSpace] at h
  have hne : cs.dropWhile isSpace ≠ [] := by rw [h]; exact List.cons_ne_nil _ _
  simpa only [h, List.head_cons] using List.head_dropWhile_not isSpace hne

theorem skipSpace_skipSpace (cs : List Char) : skipSpace (skipSpace cs) = skipSpace cs := by
  cases h : skipSpace cs with
  | nil => rfl
  | cons c rest => exact skipSpace_cons rest (isSpace_of_skipSpace h)

theorem Lexes.of_mark {c : Char} {cs rest : List Char} {ts : List Token} (hc : isMark c = true)
    (hcs : skipSpace cs = c :: rest) (h : Lexes rest ts) : Lexes cs (.mark c :: ts) := by
  have hp : (Token.mark c).Proper := hc
  rw [← skipSpace_iff, hcs]
  exact .token hp False.elim h

theorem Lexes.next_mark {c : Char} {cs : List Char} {ts : List Token} (h : Lexes cs (.mark c :: ts)) :
    ∃ rest, skipSpace cs = c :: rest ∧ Lexes rest ts := by
  obtain ⟨rest, hcs, -, -, hrest⟩ := h.next
  exact ⟨rest, hcs, hrest⟩

theorem Lexes.next_ne_mark {c : Char} {cs : List Char} {tok : Token} {ts : List Token}
    (hc : isMark c = true) (h : Lexes cs (tok :: ts)) (hne : tok ≠ .mark c) :
    ∃ d rest, skipSpace cs = d :: rest ∧ d ≠ c := by
  obtain ⟨rest, hcs, hp, -, -⟩ := h.next
  obtain ⟨d, ds, hds, -, hkind⟩ := hp.exists_head
  rw [hds, List.cons_append] at hcs
  refine ⟨d, ds ++ rest, hcs, ?_⟩
  rintro rfl
  rcases hkind with ⟨-, rfl⟩ | ⟨rfl, -⟩ | ⟨hbare, -⟩
  · exact hne rfl
  · cases hc
  · rw [not_isBare_of_isMark hc] at hbare
    cases hbare

/-! ## Readers and what they recognise -/

/-- Whatever is read is spelled by the tokens that it is read from. -/
def Sound {α : Type} (read : Reader α) (P : α → List Token → Prop) : Prop :=
  ∀ ⦃cs : List Char⦄ ⦃a : α⦄ ⦃rest : List Char⦄ ⦃ts : List Token⦄, read cs = .ok (a, rest) →
    Boundary rest → Lexes rest ts → ∃ toks, P a toks ∧ Lexes cs (toks ++ ts)

/-- Whatever is spelled is read. -/
def Complete {α : Type} (read : Reader α) (P : α → List Token → Prop) : Prop :=
  ∀ ⦃cs : List Char⦄ ⦃a : α⦄ ⦃toks ts : List Token⦄, P a toks → Lexes cs (toks ++ ts) →
    ∃ rest, read (skipSpace cs) = .ok (a, rest) ∧ Lexes rest ts

/-- The next element between two brackets, read by `read`, and those behind it, read by `more`. -/
inductive ListStep {α : Type} (close : Char) (read : Reader α) (more : Reader (List α)) :
    Bool → List Char → List α → List Char → Prop
  | done {first : Bool} {cs rest : List Char} (h : skipSpace cs = close :: rest) :
    ListStep close read more first cs [] rest
  | first {cs tail after rest : List Char} {c : Char} {a : α} {as : List α}
    (h : skipSpace cs = c :: tail) (hc : c ≠ close) (ha : read (c :: tail) = .ok (a, after))
    (has : more after = .ok (as, rest)) : ListStep close read more true cs (a :: as) rest
  | next {cs tail behind after rest : List Char} {c : Char} {a : α} {as : List α}
    (h : skipSpace cs = ',' :: tail) (htail : skipSpace tail = c :: behind) (hc : c ≠ close)
    (ha : read (c :: behind) = .ok (a, after)) (has : more after = .ok (as, rest)) :
    ListStep close read more false cs (a :: as) rest

/-- Reads elements one after the other up to the bracket `close`. -/
structure ReadsList {α : Type} (close : Char) (read : Reader α)
    (list : Nat → Bool → Reader (List α)) : Prop where
  isMark : isMark close = true
  zero : ∀ first cs r, list 0 first cs ≠ .ok r
  succ : ∀ fuel first cs as rest, list (fuel + 1) first cs = .ok (as, rest) ↔
    ListStep close read (list fuel false) first cs as rest

namespace ReadsList

variable {α : Type} {close : Char} {read : Reader α} {list : Nat → Bool → Reader (List α)}
  {P : α → List Token → Prop}

theorem sound (hl : ReadsList close read list) (hread : Sound read P) {fuel : Nat} {first : Bool}
    {cs rest : List Char} {as : List α} {ts : List Token} (h : list fuel first cs = .ok (as, rest))
    (hts : Lexes rest ts) :
    ∃ toks, Listed P first as toks ∧ Lexes cs (toks ++ .mark close :: ts) := by
  induction fuel generalizing first cs as with
  | zero => exact absurd h (hl.zero first cs _)
  | succ fuel ih =>
    -- behind an element there is a comma or the bracket, so that the element ends
    have hbehind : ∀ {after : List Char} {as : List α}, list fuel false after = .ok (as, rest) →
        ∃ toks, Listed P false as toks ∧ Lexes after (toks ++ .mark close :: ts) ∧ Boundary after := by
      intro after as has
      obtain ⟨toks, hlisted, hlexes⟩ := ih has
      refine ⟨toks, hlisted, hlexes, hlexes.boundary ?_⟩
      cases hlisted with
      | nil => simp [Token.IsBare]
      | next ha _ => simp [Token.IsBare]
    cases (hl.succ fuel first cs as rest).mp h with
    | done hclose => exact ⟨[], .nil, .of_mark hl.isMark hclose hts⟩
    | first hcs _ ha has =>
      obtain ⟨more, hmore, hlexes, hb⟩ := hbehind has
      obtain ⟨toks, htoks, hcs'⟩ := hread ha hb hlexes
      refine ⟨toks ++ more, .first htoks hmore, ?_⟩
      rwa [List.append_assoc, ← Lexes.skipSpace_iff, hcs]
    | next hcs htail _ ha has =>
      obtain ⟨more, hmore, hlexes, hb⟩ := hbehind has
      obtain ⟨toks, htoks, hbehind'⟩ := hread ha hb hlexes
      refine ⟨.mark ',' :: (toks ++ more), .next htoks hmore, ?_⟩
      rw [List.cons_append, List.append_assoc]
      apply Lexes.of_mark (by decide) hcs
      rwa [← Lexes.skipSpace_iff, htail]

theorem complete (hl : ReadsList close read list) (hread : Complete read P)
    (hstart : ∀ a toks, P a toks → ∃ tok more, toks = tok :: more ∧ tok ≠ .mark close)
    {first : Bool} {as : List α} {toks : List Token} (h : Listed P first as toks) {fuel : Nat}
    (hfuel : toks.length < fuel) {cs : List Char} {ts : List Token}
    (hcs : Lexes cs (toks ++ .mark close :: ts)) :
    ∃ rest, list fuel first cs = .ok (as, rest) ∧ Lexes rest ts := by
  induction h generalizing fuel cs with
  | nil =>
    obtain ⟨rest, hrest, hlexes⟩ := hcs.next_mark
    obtain ⟨fuel, rfl⟩ := Nat.exists_eq_add_one_of_ne_zero (Nat.ne_zero_of_lt hfuel)
    exact ⟨rest, (hl.succ fuel _ cs [] rest).mpr (.done hrest), hlexes⟩
  | @first a as ts' more ha hmore ih =>
    obtain ⟨tok, toks, rfl, hne⟩ := hstart _ _ ha
    rw [List.append_assoc] at hcs
    obtain ⟨c, tail, hhead, hc⟩ := Lexes.next_ne_mark hl.isMark hcs hne
    obtain ⟨after, hafter, hlexes⟩ := hread ha hcs
    obtain ⟨fuel, rfl⟩ := Nat.exists_eq_add_one_of_ne_zero (Nat.ne_zero_of_lt hfuel)
    simp only [List.length_append, List.length_cons] at hfuel
    have hless : more.length < fuel := by omega
    obtain ⟨rest, hrest, hts⟩ := ih hless hlexes
    rw [hhead] at hafter
    exact ⟨rest, (hl.succ fuel _ cs _ rest).mpr (.first hhead hc hafter hrest), hts⟩
  | @next a as ts' more ha hmore ih =>
    obtain ⟨tok, toks, rfl, hne⟩ := hstart _ _ ha
    rw [List.cons_append, List.append_assoc] at hcs
    obtain ⟨behind, hcomma, hcs⟩ := hcs.next_mark
    obtain ⟨c, tail, hhead, hc⟩ := Lexes.next_ne_mark hl.isMark hcs hne
    obtain ⟨after, hafter, hlexes⟩ := hread ha hcs
    obtain ⟨fuel, rfl⟩ := Nat.exists_eq_add_one_of_ne_zero (Nat.ne_zero_of_lt hfuel)
    simp only [List.length_append, List.length_cons] at hfuel
    have hless : more.length < fuel := by omega
    obtain ⟨rest, hrest, hts⟩ := ih hless hlexes
    rw [hhead] at hafter
    exact ⟨rest, (hl.succ fuel _ cs _ rest).mpr (.next hcomma hhead hc hafter hrest), hts⟩

end ReadsList

/-- An element and those behind it. -/
theorem cons_eq_ok {α : Type} {item : Reader α} {list : Reader (List α)} {cs rest : List Char}
    {as : List α} :
    (do
        let (v, after) ← item cs
        let (vs, after) ← list after
        .ok (v :: vs, after) : Except Fault (List α × List Char)) = .ok (as, rest) ↔
      ∃ a after more, as = a :: more ∧ item cs = .ok (a, after) ∧ list after = .ok (more, rest) := by
  constructor
  · intro h
    obtain ⟨⟨a, after⟩, ha, h⟩ := bind_eq_ok.mp h
    obtain ⟨⟨more, last⟩, hmore, h⟩ := bind_eq_ok.mp h
    simp only [Except.ok.injEq, Prod.mk.injEq] at h
    obtain ⟨rfl, rfl⟩ := h
    exact ⟨a, after, more, rfl, ha, hmore⟩
  · rintro ⟨a, after, more, rfl, ha, hmore⟩
    exact bind_eq_ok.mpr ⟨_, ha, bind_eq_ok.mpr ⟨_, hmore, rfl⟩⟩

theorem readsList_items {α : Type} (item : Reader α) : ReadsList ']' item (items item) where
  isMark := by decide
  zero _ _ _ h := by cases h
  succ fuel first cs as rest := by
    constructor
    · intro h
      unfold items at h
      split at h
      · cases h
      · rename_i hcs
        simp only [Except.ok.injEq, Prod.mk.injEq] at h
        obtain ⟨rfl, rfl⟩ := h
        exact .done hcs
      · rename_i c tail hc hcs
        split at h
        · rename_i hfirst
          obtain ⟨a, after, more, rfl, ha, hmore⟩ := cons_eq_ok.mp h
          rw [hfirst]
          exact .first hcs hc ha hmore
        · rename_i hfirst
          split at h
          · rename_i hcomma
            split at h
            · cases h
            · cases h
            · rename_i hnil hclose
              obtain ⟨a, after, more, rfl, ha, hmore⟩ := cons_eq_ok.mp h
              rw [Bool.not_eq_true] at hfirst
              rw [hcomma] at hcs
              rw [hfirst]
              cases htail : skipSpace tail with
              | nil => exact (hnil htail).elim
              | cons d behind =>
                rw [htail] at ha
                exact .next hcs htail (fun hd => hclose behind (by rw [htail, hd])) ha hmore
          · cases h
    · intro h
      unfold items
      cases h with
      | done h => simp only [h]
      | first h hc ha has =>
        split
        · rename_i h'
          cases h.symm.trans h'
        · rename_i h'
          exact absurd (List.cons.inj (h.symm.trans h')).1 hc
        · rename_i h'
          obtain ⟨rfl, rfl⟩ := List.cons.inj (h.symm.trans h')
          exact cons_eq_ok.mpr ⟨_, _, _, rfl, ha, has⟩
      | next h htail hc ha has =>
        split
        · rename_i h'
          cases h.symm.trans h'
        · rename_i h'
          cases h.symm.trans h'
        · rename_i h'
          obtain ⟨rfl, rfl⟩ := List.cons.inj (h.symm.trans h')
          rw [if_neg Bool.false_ne_true, if_pos rfl]
          split
          · rename_i h'
            cases htail.symm.trans h'
          · rename_i h'
            exact absurd (List.cons.inj (htail.symm.trans h')).1 hc
          · rw [htail]
            exact cons_eq_ok.mpr ⟨_, _, _, rfl, ha, has⟩

/-- An entry of an object from its key's quote on. -/
def entry {α : Type} (item : Reader α) : Reader (String × α)
  | '"' :: rest => member item rest
  | cs => .error (.here .keyNotString cs)

theorem quote_of_entry_eq_ok {α : Type} {item : Reader α} {c : Char} {cs rest : List Char}
    {m : String × α} (h : entry item (c :: cs) = .ok (m, rest)) : c = '"' := by
  unfold entry at h
  split at h
  · rename_i heq
    exact (List.cons.inj heq).1
  · cases h

theorem readsList_members {α : Type} (item : Reader α) :
    ReadsList '}' (entry item) (members item) where
  isMark := by decide
  zero _ _ _ h := by cases h
  succ fuel first cs as rest := by
    constructor
    · intro h
      unfold members at h
      split at h
      · cases h
      · rename_i hcs
        simp only [Except.ok.injEq, Prod.mk.injEq] at h
        obtain ⟨rfl, rfl⟩ := h
        exact .done hcs
      · rename_i c tail hc hcs
        split at h
        · rename_i hfirst
          split at h
          · rename_i hquote
            obtain ⟨a, after, more, rfl, ha, hmore⟩ := cons_eq_ok.mp h
            rw [hfirst]
            subst hquote
            exact .first hcs (by decide) ha hmore
          · cases h
        · rename_i hfirst
          split at h
          · rename_i hcomma
            rw [Bool.not_eq_true] at hfirst
            rw [hcomma] at hcs
            rw [hfirst]
            split at h
            · cases h
            · cases h
            · rename_i htail
              obtain ⟨a, after, more, rfl, ha, hmore⟩ := cons_eq_ok.mp h
              exact .next hcs htail (by decide) ha hmore
            · cases h
          · cases h
    · intro h
      unfold members
      cases h with
      | done h => simp only [h]
      | first h hc ha has =>
        obtain rfl := quote_of_entry_eq_ok ha
        rw [h]
        exact cons_eq_ok.mpr ⟨_, _, _, rfl, ha, has⟩
      | next h htail hc ha has =>
        obtain rfl := quote_of_entry_eq_ok ha
        split
        · rename_i h'
          cases h.symm.trans h'
        · rename_i h'
          cases h.symm.trans h'
        · rename_i h'
          obtain ⟨rfl, rfl⟩ := List.cons.inj (h.symm.trans h')
          rw [if_neg Bool.false_ne_true, if_pos rfl, htail]
          exact cons_eq_ok.mpr ⟨_, _, _, rfl, ha, has⟩

/-! ## Values -/

theorem entry_sound {item : Reader Value} {P : Value → List Token → Prop} (h : Sound item P) :
    Sound (entry item) (EntrySpells P) := by
  intro cs m rest ts hread hb hts
  cases cs with
  | nil => cases hread
  | cons c cs =>
    obtain rfl := quote_of_entry_eq_ok hread
    obtain ⟨⟨key, behind⟩, hkey, hread⟩ := bind_eq_ok.mp hread
    obtain ⟨⟨v, after⟩, hv, hread⟩ := bind_eq_ok.mp hread
    simp only [Except.ok.injEq, Prod.mk.injEq] at hread
    obtain ⟨rfl, rfl⟩ := hread
    obtain ⟨body, hbody, rfl, hother⟩ := literal_eq_ok hkey
    unfold memberValue at hv
    split at hv
    · cases hv
    · rename_i hcolon
      obtain ⟨toks, htoks, hlexes⟩ := h hv hb hts
      exact ⟨_, .mk (hother []) htoks, .of_literal hbody (.of_mark (by decide) hcolon hlexes)⟩
    · cases hv

theorem entry_complete {item : Reader Value} {P : Value → List Token → Prop}
    (hskip : ∀ cs, item (skipSpace cs) = item cs) (h : Complete item P) :
    Complete (entry item) (EntrySpells P) := by
  rintro cs _ _ ts ⟨hkey, hv⟩ hcs
  obtain ⟨behind, hcs', hbody, -, hbehind⟩ := hcs.next
  obtain ⟨tail, hcolon, htail⟩ := hbehind.next_mark
  obtain ⟨rest, hrest, hts⟩ := h hv htail
  refine ⟨rest, ?_, hts⟩
  have hvalue : memberValue item behind = item tail := by simp only [memberValue, hcolon]
  rw [hskip, ← hvalue] at hrest
  rw [hcs', Token.text, List.cons_append, List.append_assoc]
  exact bind_eq_ok.mpr ⟨_, literal_append hbody hkey behind, bind_eq_ok.mpr ⟨_, hrest, rfl⟩⟩

theorem value_skipSpace (depth : Nat) (cs : List Char) :
    value depth (skipSpace cs) = value depth cs := by
  cases depth with
  | zero => rw [value, value, skipSpace_skipSpace]
  | succ depth => rw [value, value, skipSpace_skipSpace]

/-- Words and numerals are read the same at every depth and in front of every boundary. -/
theorem value_bare {depth : Nat} {c : Char} {cs rest : List Char} {v : Value}
    (hc : isBare c = true) (h : value (depth + 1) (c :: cs) = .ok (v, rest)) (k : Nat) :
    TakesBare (value (k + 1)) (c :: cs) v rest := by
  have hspace : isSpace c = false := by
    rw [Bool.eq_false_iff]
    intro hs
    rw [not_isBare_of_isSpace hs] at hc
    cases hc
  -- the first character selects the reader of the rest
  have hselect : ∀ read : Reader Value, ReadsBare read →
      (∀ k tail, value (k + 1) (c :: tail) = read tail) →
        TakesBare (value (k + 1)) (c :: cs) v rest := by
    intro read hread hvalue
    rw [hvalue] at h
    exact (hread h).cons hc (hvalue k)
  by_cases hn : c = 'n'
  · subst hn
    exact hselect (word .null ['u', 'l', 'l']) (readsBare_word _ (by decide)) fun _ _ => rfl
  by_cases ht : c = 't'
  · subst ht
    exact hselect (word (.bool true) ['r', 'u', 'e']) (readsBare_word _ (by decide)) fun _ _ => rfl
  by_cases hf : c = 'f'
  · subst hf
    exact hselect (word (.bool false) ['a', 'l', 's', 'e']) (readsBare_word _ (by decide))
      fun _ _ => rfl
  by_cases hminus : c = '-'
  · subst hminus
    exact hselect (numeral true) (readsBare_numeral true) fun _ _ => rfl
  by_cases hdigit : (digit? c).isSome = true
  · have hnumeral : ∀ k tail, value (k + 1) (c :: tail) = numeral false (c :: tail) := by
      intro k tail
      simp only [value, skipSpace_cons _ hspace, if_neg hn, if_neg ht, if_neg hf, if_neg hminus,
        if_pos hdigit]
    rw [hnumeral] at h
    obtain ⟨w, heq, hw, hother⟩ := readsBare_numeral false h
    cases w with
    | nil => cases hother [] (by simp [Boundary])
    | cons d w =>
      obtain ⟨rfl, -⟩ := List.cons.inj heq
      refine ⟨c :: w, heq, hw, ?_⟩
      intro other hb
      rw [← hother other hb, List.cons_append, hnumeral]
  · have hquote : c ≠ '"' := by rintro rfl; cases hc
    have hlist : c ≠ '[' := by rintro rfl; cases hc
    have hobject : c ≠ '{' := by rintro rfl; cases hc
    simp only [value, skipSpace_cons _ hspace, if_neg hn, if_neg ht, if_neg hf, if_neg hminus,
      if_neg hdigit, if_neg hquote, if_neg hlist, if_neg hobject] at h
    cases h

/-- What a value that is read starts with, apart from words and numerals. -/
theorem value_cases {depth : Nat} {c : Char} {cs rest : List Char} {v : Value}
    (hspace : isSpace c = false) (hbare : isBare c = false)
    (h : value (depth + 1) (c :: cs) = .ok (v, rest)) :
    (c = '"' ∧ ∃ s, literal cs = .ok (s, rest) ∧ v = .string s) ∨
      (c = '[' ∧ depth ≠ 0 ∧
        ∃ vs, items (value depth) (cs.length + 1) true cs = .ok (vs, rest) ∧ v = .array vs) ∨
      (c = '{' ∧ depth ≠ 0 ∧
        ∃ ms, members (value depth) (cs.length + 1) true cs = .ok (ms, rest) ∧
          v = .object (Entries.ofList ms)) := by
  have hn : c ≠ 'n' := by rintro rfl; cases hbare
  have ht : c ≠ 't' := by rintro rfl; cases hbare
  have hf : c ≠ 'f' := by rintro rfl; cases hbare
  have hminus : c ≠ '-' := by rintro rfl; cases hbare
  have hdigit : ¬ (digit? c).isSome = true := by
    intro hd
    obtain ⟨d, hd⟩ := Option.isSome_iff_exists.mp hd
    rw [isBare_of_digit? hd] at hbare
    cases hbare
  simp only [value, skipSpace_cons _ hspace, if_neg hn, if_neg ht, if_neg hf, if_neg hminus,
    if_neg hdigit] at h
  by_cases hquote : c = '"'
  · rw [if_pos hquote] at h
    obtain ⟨⟨s, after⟩, hs, hlast⟩ := bind_eq_ok.mp h
    obtain ⟨rfl, rfl⟩ : .string s = v ∧ after = rest := by simpa using hlast
    exact .inl ⟨hquote, s, hs, rfl⟩
  rw [if_neg hquote] at h
  by_cases hlist : c = '['
  · rw [if_pos hlist] at h
    split at h
    · cases h
    · rename_i hdepth
      obtain ⟨⟨vs, after⟩, hvs, hlast⟩ := bind_eq_ok.mp h
      obtain ⟨rfl, rfl⟩ : .array vs = v ∧ after = rest := by simpa using hlast
      exact .inr (.inl ⟨hlist, hdepth, vs, hvs, rfl⟩)
  rw [if_neg hlist] at h
  split at h
  · rename_i hobject
    split at h
    · cases h
    · rename_i hdepth
      obtain ⟨⟨ms, after⟩, hms, hlast⟩ := bind_eq_ok.mp h
      obtain ⟨rfl, rfl⟩ : .object (Entries.ofList ms) = v ∧ after = rest := by simpa using hlast
      exact .inr (.inr ⟨hobject, hdepth, ms, hms, rfl⟩)
  · cases h

theorem Spells.exists_head {depth : Nat} {v : Value} {toks : List Token} (h : Spells depth v toks) :
    ∃ tok more, toks = tok :: more ∧ tok ≠ .mark ']' := by
  cases depth with
  | zero => cases h
  | succ depth =>
    cases h with
    | bare | string | array | object => exact ⟨_, _, rfl, by simp⟩

theorem value_sound (depth : Nat) : Sound (value depth) (Spells depth) := by
  induction depth with
  | zero =>
    intro cs v rest ts h
    cases h
  | succ depth ih =>
    intro cs v rest ts h hb hts
    rw [← value_skipSpace] at h
    cases hcs : skipSpace cs with
    | nil =>
      rw [hcs] at h
      cases h
    | cons c tail =>
      rw [hcs] at h
      cases hbare : isBare c with
      | true =>
        obtain ⟨w, heq, hw, hother⟩ := value_bare hbare h 0
        have hne : w ≠ [] := by
          rintro rfl
          cases hother [] (by simp [Boundary])
        have hp : (Token.bare w).Proper := ⟨hne, hw⟩
        have hone : value 1 w = .ok (v, []) := by simpa using hother [] (by simp [Boundary])
        refine ⟨[.bare w], .bare hone, ?_⟩
        rw [← Lexes.skipSpace_iff, hcs, heq]
        exact .token hp (fun _ => hb) hts
      | false =>
        rcases value_cases (isSpace_of_skipSpace hcs) hbare h with
          ⟨rfl, s, hs, rfl⟩ | ⟨rfl, hdepth, vs, hvs, rfl⟩ | ⟨rfl, hdepth, ms, hms, rfl⟩
        · obtain ⟨body, hbody, rfl, hother⟩ := literal_eq_ok hs
          refine ⟨[.literal body], .string (hother []), ?_⟩
          rw [← Lexes.skipSpace_iff, hcs]
          exact .of_literal hbody hts
        · obtain ⟨toks, htoks, hlexes⟩ := (readsList_items (value depth)).sound ih hvs hts
          refine ⟨_, .array hdepth htoks, ?_⟩
          simpa using Lexes.of_mark (by decide) hcs hlexes
        · obtain ⟨toks, htoks, hlexes⟩ :=
            (readsList_members (value depth)).sound (entry_sound ih) hms hts
          refine ⟨_, .object hdepth htoks, ?_⟩
          simpa using Lexes.of_mark (by decide) hcs hlexes

theorem value_complete (depth : Nat) : Complete (value depth) (Spells depth) := by
  induction depth with
  | zero =>
    intro cs v toks ts h
    cases h
  | succ depth ih =>
    intro cs v toks ts h hcs
    rw [value_skipSpace]
    cases h with
    | bare hone =>
      obtain ⟨rest, hskip, ⟨hne, hbare⟩, hb, hts⟩ := hcs.next
      refine ⟨rest, ?_, hts⟩
      rename_i w
      cases w with
      | nil => exact absurd rfl hne
      | cons c w =>
        obtain ⟨w', heq, -, hother⟩ := value_bare (hbare c List.mem_cons_self) hone depth
        rw [← value_skipSpace, hskip, Token.text, heq, List.append_nil]
        exact hother rest (hb trivial)
    | string hs =>
      obtain ⟨rest, hskip, hbody, -, hts⟩ := hcs.next
      refine ⟨rest, ?_, hts⟩
      rw [← value_skipSpace, hskip, Token.text, List.cons_append, List.append_assoc]
      exact bind_eq_ok.mpr ⟨_, literal_append hbody hs rest, rfl⟩
    | array hdepth hlisted =>
      rw [List.cons_append, List.append_assoc] at hcs
      obtain ⟨tail, hskip, htail⟩ := hcs.next_mark
      have hfuel := htail.length_le
      rw [List.length_append] at hfuel
      obtain ⟨rest, hrest, hts⟩ := (readsList_items (value depth)).complete ih
        (fun _ _ => Spells.exists_head) hlisted (Nat.lt_succ_of_le (Nat.le_of_add_right_le hfuel)) htail
      refine ⟨rest, ?_, hts⟩
      rw [← value_skipSpace, hskip]
      exact (if_neg hdepth).trans (bind_eq_ok.mpr ⟨_, hrest, rfl⟩)
    | object hdepth hlisted =>
      rw [List.cons_append, List.append_assoc] at hcs
      obtain ⟨tail, hskip, htail⟩ := hcs.next_mark
      have hfuel := htail.length_le
      rw [List.length_append] at hfuel
      have hstart : ∀ m toks, EntrySpells (Spells depth) m toks →
          ∃ tok more, toks = tok :: more ∧ tok ≠ .mark '}' := by
        rintro _ _ ⟨-, -⟩
        exact ⟨_, _, rfl, by simp⟩
      obtain ⟨rest, hrest, hts⟩ := (readsList_members (value depth)).complete
        (entry_complete (value_skipSpace depth) ih) hstart hlisted
        (Nat.lt_succ_of_le (Nat.le_of_add_right_le hfuel)) htail
      refine ⟨rest, ?_, hts⟩
      rw [← value_skipSpace, hskip]
      exact (if_neg hdepth).trans (bind_eq_ok.mpr ⟨_, hrest, rfl⟩)

theorem document_eq_ok_iff {depth : Nat} {cs : List Char} {v : Value} :
    document depth cs = .ok v ↔ ∃ toks, Lexes cs toks ∧ Spells depth v toks := by
  constructor
  · intro h
    obtain ⟨⟨u, after⟩, hu, h⟩ := bind_eq_ok.mp h
    dsimp only at h
    split at h
    · rename_i hafter
      obtain rfl : u = v := Except.ok.inj h
      have hend : Lexes after [] := by
        rw [← Lexes.skipSpace_iff, hafter]
        exact .nil
      obtain ⟨toks, htoks, hlexes⟩ := value_sound depth hu (hend.boundary (by simp)) hend
      rw [List.append_nil] at hlexes
      exact ⟨toks, hlexes, htoks⟩
    · cases h
  · rintro ⟨toks, hlexes, htoks⟩
    rw [← List.append_nil toks] at hlexes
    obtain ⟨rest, hrest, hend⟩ := value_complete depth htoks hlexes
    rw [value_skipSpace] at hrest
    refine bind_eq_ok.mpr ⟨_, hrest, ?_⟩
    dsimp only
    rw [hend.skipSpace_eq_nil]

/-- A text is read as `v` exactly if its tokens spell `v`. -/
theorem parse_eq_ok_iff {cs : List Char} {v : Value} :
    parse cs = .ok v ↔ ∃ toks, Lexes cs toks ∧ Spells depthLimit v toks := by
  rw [← document_eq_ok_iff, parse, parseWithin]
  cases document depthLimit cs with
  | ok u => simp
  | error f => simp

end GroovyWorkspace.Json
