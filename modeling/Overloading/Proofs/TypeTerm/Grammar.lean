import Overloading.Proofs.Text.Trim
import Overloading.Proofs.TypeTerm.Tokens

/-! # The grammar of type terms

A text writes a type term (`Derives`) if it is a name, or a name with parameters in parentheses and
commas between them, where blanks may stand around each name and after each closing parenthesis. A
name holds no mark and neither starts nor ends with a blank (`Token.IsName`).

The tokens of a text fall apart at every mark (`Token.scan_append_mark`,
`Token.exists_of_scan_eq_append`), so the texts that write a term are those that have its tokens
(`derives_iff_scan_eq`), and `parse` reads each text of the grammar as the term that it writes
(`parse_eq_ok_iff`). -/

namespace Overloading

open Text (AllBlank)

/-- Where two lists agree and `k` is not in the first part of one, it stands right after this part or
later. -/
theorem Text.cases_of_append_cons_eq {α : Type} {m k : α} {gs ms ts us : List α} (hk : k ∉ gs)
    (h : gs ++ m :: ms = ts ++ k :: us) :
    (ts = gs ∧ m = k ∧ ms = us) ∨ ∃ vs, ts = gs ++ m :: vs ∧ ms = vs ++ k :: us := by
  induction gs generalizing ts with
  | nil =>
    cases ts with
    | nil =>
      obtain ⟨hm, hms⟩ := List.cons.inj h
      exact .inl ⟨rfl, hm, hms⟩
    | cons t ts =>
      obtain ⟨rfl, hms⟩ := List.cons.inj h
      exact .inr ⟨ts, rfl, hms⟩
  | cons g gs ih =>
    rw [List.mem_cons, not_or] at hk
    cases ts with
    | nil => exact absurd (List.cons.inj h).1.symm hk.1
    | cons t ts =>
      obtain ⟨rfl, htail⟩ := List.cons.inj h
      rcases ih hk.2 htail with ⟨rfl, hm, hms⟩ | ⟨vs, rfl, hms⟩
      · exact .inl ⟨rfl, hm, hms⟩
      · exact .inr ⟨vs, rfl, hms⟩

namespace Token

/-- A name: a text that is not empty, holds no mark and is trimmed. -/
structure IsName (cs : List Char) : Prop where
  ne_nil : cs ≠ []
  unmarked : ∀ c ∈ cs, ofChar? c = none
  trim_eq : Text.trim cs = cs

instance (cs : List Char) : Decidable (IsName cs) :=
  decidable_of_iff (cs ≠ [] ∧ cs.all (fun c => (ofChar? c).isNone) = true ∧ Text.trim cs = cs)
    ⟨fun ⟨hne, hmark, htrim⟩ =>
      ⟨hne, fun c hc => Option.isNone_iff_eq_none.1 (List.all_eq_true.1 hmark c hc), htrim⟩,
    fun h => ⟨h.ne_nil, List.all_eq_true.2 fun c hc =>
      Option.isNone_iff_eq_none.2 (h.unmarked c hc), h.trim_eq⟩⟩

variable {c : Char} {k : Token} {cs gap : List Char} {n : String} {ts us : List Token}

/-- The marks are the parentheses and the comma. -/
theorem ofChar?_eq_none_iff : ofChar? c = none ↔ c ≠ '(' ∧ c ≠ ',' ∧ c ≠ ')' := by
  unfold ofChar?
  split <;> simp_all

/-- **A name neither starts nor ends with a blank.** -/
theorem isName_iff :
    IsName cs ↔ cs ≠ [] ∧ (∀ c ∈ cs, c ≠ '(' ∧ c ≠ ',' ∧ c ≠ ')') ∧
      (∀ c ∈ cs.head?, Text.isBlank c = false) ∧ ∀ c ∈ cs.getLast?, Text.isBlank c = false := by
  rw [← Text.trim_eq_self_iff]
  constructor
  · rintro ⟨hne, hmark, htrim⟩
    exact ⟨hne, fun c hc => ofChar?_eq_none_iff.1 (hmark c hc), htrim⟩
  · rintro ⟨hne, hmark, htrim⟩
    exact ⟨hne, fun c hc => ofChar?_eq_none_iff.2 (hmark c hc), htrim⟩

/-- No two characters are the same mark. -/
theorem ofChar?_injective {d : Char} (hc : ofChar? c = some k) (hd : ofChar? d = some k) : c = d := by
  unfold ofChar? at hc hd
  grind

theorem ofChar?_ne_name : ofChar? c ≠ some (name n) := by
  unfold ofChar?
  split <;> simp

/-- A mark is no blank. -/
theorem isBlank_of_ofChar? (hc : ofChar? c = some k) : Text.isBlank c = false := by
  unfold ofChar? at hc
  split at hc
  · decide
  · decide
  · decide
  · cases hc

theorem unmarked_of_allBlank (h : AllBlank cs) : ∀ c ∈ cs, ofChar? c = none := by
  intro c hc
  cases hk : ofChar? c with
  | none => rfl
  | some k =>
    have hblank := h c hc
    rw [isBlank_of_ofChar? hk] at hblank
    cases hblank

/-! ### Gaps -/

theorem ofGap_eq_nil_iff : ofGap gap = [] ↔ AllBlank gap := by
  rw [← Text.trim_eq_nil_iff]
  unfold ofGap
  split <;> simp_all

theorem ofGap_of_trim_ne_nil (h : Text.trim gap ≠ []) :
    ofGap gap = [name (String.ofList (Text.trim gap))] := by
  unfold ofGap
  split
  · contradiction
  · rfl

/-- **The name in a gap stands between blanks.** -/
theorem ofGap_eq_singleton_iff (hgap : ∀ c ∈ gap, ofChar? c = none) :
    ofGap gap = [name n] ↔
      ∃ l r, AllBlank l ∧ AllBlank r ∧ IsName n.toList ∧ gap = l ++ n.toList ++ r := by
  constructor
  · intro h
    have hne : Text.trim gap ≠ [] := by
      intro hnil
      rw [ofGap_eq_nil_iff.2 (Text.trim_eq_nil_iff.1 hnil)] at h
      cases h
    rw [ofGap_of_trim_ne_nil hne] at h
    obtain rfl : String.ofList (Text.trim gap) = n := by simpa using h
    rw [String.toList_ofList]
    obtain ⟨l, r, hl, hr, hcs⟩ := Text.exists_eq_append_trim gap
    refine ⟨l, r, hl, hr, ⟨hne, fun c hc => hgap c ?_, Text.trim_trim gap⟩, hcs⟩
    rw [hcs]
    simp [hc]
  · rintro ⟨l, r, hl, hr, hn, rfl⟩
    have htrim : Text.trim (l ++ n.toList ++ r) = n.toList :=
      Text.trim_append hl hn.trim_eq hn.ne_nil hr
    have hne : Text.trim (l ++ n.toList ++ r) ≠ [] := by
      rw [htrim]
      exact hn.ne_nil
    rw [ofGap_of_trim_ne_nil hne, htrim, String.ofList_toList]

/-! ### Marks -/

theorem foldr_scanStep (cs : List Char) (ts : List Token) :
    cs.foldr scanStep ([], ts) =
      ((cs.foldr scanStep ([], [])).1, (cs.foldr scanStep ([], [])).2 ++ ts) := by
  induction cs with
  | nil => rfl
  | cons c cs ih =>
    rw [List.foldr_cons, ih, List.foldr_cons]
    unfold scanStep
    cases ofChar? c <;> simp

/-- **The tokens of a text fall apart at every mark.** -/
theorem scan_append_mark (hc : ofChar? c = some k) (cs ds : List Char) :
    scan (cs ++ c :: ds) = scan cs ++ k :: scan ds := by
  have hmark : (c :: ds).foldr scanStep ([], []) = ([], k :: scan ds) := by
    rw [List.foldr_cons, scanStep, hc]
    rfl
  unfold scan
  rw [List.foldr_append, hmark, foldr_scanStep, List.append_assoc]
  rfl

/-- Blanks that a text starts with make no difference to its tokens. -/
theorem scan_append_of_allBlank {l : List Char} (hl : AllBlank l) (cs : List Char) :
    scan (l ++ cs) = scan cs := by
  have hfold : (l ++ cs).foldr scanStep ([], []) =
      (l ++ (cs.foldr scanStep ([], [])).1, (cs.foldr scanStep ([], [])).2) := by
    induction l with
    | nil => rfl
    | cons c l ih =>
      rw [List.cons_append, List.foldr_cons, ih (List.forall_mem_cons.1 hl).2, scanStep,
        unmarked_of_allBlank hl c (by simp)]
      rfl
  unfold scan ofGap
  rw [hfold]
  simp only [Text.trim, Text.trimLeft_append hl]

theorem scan_of_unmarked (hgap : ∀ c ∈ gap, ofChar? c = none) : scan gap = ofGap gap := by
  have hfold : gap.foldr scanStep ([], []) = (gap, []) := by
    induction gap with
    | nil => rfl
    | cons c gap ih =>
      rw [List.forall_mem_cons] at hgap
      rw [List.foldr_cons, ih hgap.2, scanStep, hgap.1]
  unfold scan
  rw [hfold, List.append_nil]

/-- A text has a first mark, or none. -/
theorem unmarked_or_exists_mark (cs : List Char) :
    (∀ c ∈ cs, ofChar? c = none) ∨
      ∃ gap c k ds, (∀ c ∈ gap, ofChar? c = none) ∧ ofChar? c = some k ∧ cs = gap ++ c :: ds := by
  induction cs with
  | nil => exact Or.inl (by simp)
  | cons c cs ih =>
    cases hc : ofChar? c with
    | some k => exact Or.inr ⟨[], c, k, cs, by simp, hc, rfl⟩
    | none =>
      rcases ih with hcs | ⟨gap, d, k, ds, hgap, hd, rfl⟩
      · exact Or.inl (List.forall_mem_cons.2 ⟨hc, hcs⟩)
      · exact Or.inr ⟨c :: gap, d, k, ds, List.forall_mem_cons.2 ⟨hc, hgap⟩, hd, rfl⟩

/-- A text starts with a gap, which ends with the text or at a mark. -/
theorem exists_gap (cs : List Char) :
    ∃ gap tail, cs = gap ++ tail ∧ (∀ c ∈ gap, ofChar? c = none) ∧
      (∀ c ∈ tail.head?, ofChar? c ≠ none) ∧ scan cs = ofGap gap ++ scan tail := by
  rcases unmarked_or_exists_mark cs with hcs | ⟨gap, c, k, ds, hgap, hc, rfl⟩
  · refine ⟨cs, [], (List.append_nil cs).symm, hcs, by simp, ?_⟩
    rw [scan_of_unmarked hcs]
    exact (List.append_nil _).symm
  · have hmark : scan ([] ++ c :: ds) = k :: scan ds := scan_append_mark hc [] ds
    refine ⟨gap, c :: ds, rfl, hgap, by simp [hc], ?_⟩
    rw [scan_append_mark hc, scan_of_unmarked hgap, ← hmark]
    rfl

/-- A gap has no token but names. -/
theorem notMem_ofGap (hk : ∀ n, k ≠ name n) (gap : List Char) : k ∉ ofGap gap := by
  unfold ofGap
  split
  · simp
  · simpa using hk _

/-- **A mark among the tokens is a mark in the text**, and the tokens on both sides of it are those
of the text on both sides. -/
theorem exists_of_scan_eq_append (hk : ∀ n, k ≠ name n) (h : scan cs = ts ++ k :: us) :
    ∃ ds c es, cs = ds ++ c :: es ∧ ofChar? c = some k ∧ scan ds = ts ∧ scan es = us := by
  induction hlen : cs.length using Nat.strong_induction_on generalizing cs ts with
  | _ len ih =>
    rcases unmarked_or_exists_mark cs with hcs | ⟨gap, c, m, ds, hgap, hc, rfl⟩
    · rw [scan_of_unmarked hcs] at h
      refine absurd ?_ (notMem_ofGap hk cs)
      simp [h]
    · rw [scan_append_mark hc, scan_of_unmarked hgap] at h
      rcases Text.cases_of_append_cons_eq (notMem_ofGap hk gap) h with
        ⟨rfl, rfl, hus⟩ | ⟨vs, rfl, hscan⟩
      · exact ⟨gap, c, ds, rfl, hc, scan_of_unmarked hgap, hus⟩
      · have hlt : ds.length < len := by
          rw [← hlen, List.length_append, List.length_cons]
          omega
        obtain ⟨ds', d, es, rfl, hd, hds', hes⟩ := ih ds.length hlt hscan rfl
        refine ⟨gap ++ c :: ds', d, es, by simp, hd, ?_, hes⟩
        rw [scan_append_mark hc, scan_of_unmarked hgap, hds']

theorem scan_eq_nil_iff : scan cs = [] ↔ AllBlank cs := by
  constructor
  · intro h
    rcases unmarked_or_exists_mark cs with hcs | ⟨gap, c, k, ds, -, hc, rfl⟩
    · rwa [scan_of_unmarked hcs, ofGap_eq_nil_iff] at h
    · rw [scan_append_mark hc] at h
      simp at h
  · intro h
    rwa [scan_of_unmarked (unmarked_of_allBlank h), ofGap_eq_nil_iff]

/-- **A text whose only token is a name consists of the name and blanks.** -/
theorem scan_eq_singleton_iff :
    scan cs = [name n] ↔
      ∃ l r, AllBlank l ∧ AllBlank r ∧ IsName n.toList ∧ cs = l ++ n.toList ++ r := by
  constructor
  · intro h
    rcases unmarked_or_exists_mark cs with hcs | ⟨gap, c, k, ds, -, hc, rfl⟩
    · rwa [scan_of_unmarked hcs, ofGap_eq_singleton_iff hcs] at h
    · have hmem : k ∈ scan (gap ++ c :: ds) := by
        rw [scan_append_mark hc]
        simp
      rw [h, List.mem_singleton] at hmem
      exact absurd (hmem ▸ hc) ofChar?_ne_name
  · rintro ⟨l, r, hl, hr, hn, rfl⟩
    have hunmarked : ∀ c ∈ l ++ n.toList ++ r, ofChar? c = none := by
      intro c hc
      rcases List.mem_append.1 hc with hc | hc
      · exact (List.mem_append.1 hc).elim (unmarked_of_allBlank hl c) (hn.unmarked c)
      · exact unmarked_of_allBlank hr c hc
    rw [scan_of_unmarked hunmarked, ofGap_eq_singleton_iff hunmarked]
    exact ⟨l, r, hl, hr, hn, rfl⟩

theorem scan_name {l m r : List Char} (hl : AllBlank l) (hm : IsName m) (hr : AllBlank r) :
    scan (l ++ m ++ r) = [name (String.ofList m)] :=
  scan_eq_singleton_iff.2 ⟨l, r, hl, hr, by rwa [String.toList_ofList], by
    rw [String.toList_ofList]⟩

end Token

namespace TypeTerm

mutual

/-- The text writes the term. -/
inductive Derives : List Char → TypeTerm → Prop
  | name {l n r : List Char} : AllBlank l → Token.IsName n → AllBlank r →
      Derives (l ++ n ++ r) (ofName (String.ofList n))
  | app {l n m cs r : List Char} {ps : List TypeTerm} : AllBlank l → Token.IsName n →
      AllBlank m → DerivesAll cs ps → AllBlank r →
      Derives (l ++ n ++ m ++ '(' :: cs ++ ')' :: r) (app (String.ofList n) ps)

/-- The text writes the terms, one at least, with a comma between two of them. -/
inductive DerivesAll : List Char → List TypeTerm → Prop
  | one {cs : List Char} {p : TypeTerm} : Derives cs p → DerivesAll cs [p]
  | cons {cs ds : List Char} {p : TypeTerm} {ps : List TypeTerm} : Derives cs p →
      DerivesAll ds ps → DerivesAll (cs ++ ',' :: ds) (p :: ps)

end

variable {cs : List Char} {t p : TypeTerm} {ps : List TypeTerm}

theorem DerivesAll.ne_nil (h : DerivesAll cs ps) : ps ≠ [] := by
  cases h <;> simp

mutual

theorem Derives.scan_eq {cs : List Char} {t : TypeTerm} :
    Derives cs t → t.Regular ∧ Token.scan cs = t.tokens
  | .name hl hn hr => ⟨.name _, by rw [tokens_ofName, Token.scan_name hl hn hr]⟩
  | .app hl hn hm hps hr => by
    obtain ⟨p, ps, rfl, hreg, hscan⟩ := hps.scan_eq
    refine ⟨.app _ (by simp) hreg, ?_⟩
    rw [List.append_assoc, List.cons_append, Token.scan_append_mark (k := .opening) rfl,
      Token.scan_append_mark (k := .closing) rfl, Token.scan_name hl hn hm,
      Token.scan_eq_nil_iff.2 hr, hscan]
    rfl

theorem DerivesAll.scan_eq {cs : List Char} {ps : List TypeTerm} :
    DerivesAll cs ps → ∃ p qs, ps = p :: qs ∧ (∀ q ∈ ps, q.Regular) ∧
      Token.scan cs ++ [.closing] = p.tokens ++ tokensAfter qs
  | .one (p := p) h => by
    obtain ⟨hreg, hscan⟩ := h.scan_eq
    exact ⟨p, [], rfl, by simpa using hreg, by rw [hscan, tokensAfter]⟩
  | .cons (p := p) h hs => by
    obtain ⟨hreg, hscan⟩ := h.scan_eq
    obtain ⟨q, qs, rfl, hregs, hscans⟩ := hs.scan_eq
    refine ⟨p, q :: qs, rfl, List.forall_mem_cons.2 ⟨hreg, hregs⟩, ?_⟩
    rw [Token.scan_append_mark (k := .comma) rfl, hscan, List.append_assoc, List.cons_append,
      hscans, tokensAfter]

end

/-- Parameters with the tokens of these terms, up to the end of their application. -/
theorem exists_derivesAll_of_scan_eq
    (ih : ∀ q ∈ p :: ps, ∀ cs, Token.scan cs = q.tokens → Derives cs q)
    (h : Token.scan cs = p.tokens ++ tokensAfter ps) :
    ∃ ds r, DerivesAll ds (p :: ps) ∧ AllBlank r ∧ cs = ds ++ ')' :: r := by
  induction ps generalizing p cs with
  | nil =>
    obtain ⟨ds, c, r, rfl, hc, hds, hr⟩ := Token.exists_of_scan_eq_append (by simp) h
    obtain rfl : c = ')' := Token.ofChar?_injective hc rfl
    exact ⟨ds, r, .one (ih p (by simp) ds hds), Token.scan_eq_nil_iff.1 hr, rfl⟩
  | cons q ps ihps =>
    obtain ⟨ds, c, es, rfl, hc, hds, hes⟩ := Token.exists_of_scan_eq_append (by simp) h
    obtain rfl : c = ',' := Token.ofChar?_injective hc rfl
    rw [List.forall_mem_cons] at ih
    obtain ⟨fs, r, hfs, hr, rfl⟩ := ihps ih.2 hes
    exact ⟨ds ++ ',' :: fs, r, .cons (ih.1 ds hds) hfs, hr, by simp⟩

theorem Regular.derives (ht : t.Regular) (h : Token.scan cs = t.tokens) : Derives cs t := by
  induction ht generalizing cs with
  | name n =>
    rw [tokens_ofName] at h
    obtain ⟨l, r, hl, hr, hn, rfl⟩ := Token.scan_eq_singleton_iff.1 h
    have hderives := Derives.name hl hn hr
    rwa [String.ofList_toList] at hderives
  | app n hne hps ih =>
    rename_i ps
    obtain ⟨p, ps, rfl⟩ := List.exists_cons_of_ne_nil hne
    have hopen : Token.scan cs = [.name n] ++ .opening :: (p.tokens ++ tokensAfter ps) := h
    obtain ⟨ds, c, es, rfl, hc, hds, hes⟩ := Token.exists_of_scan_eq_append (by simp) hopen
    obtain rfl : c = '(' := Token.ofChar?_injective hc rfl
    obtain ⟨l, m, hl, hm, hn, rfl⟩ := Token.scan_eq_singleton_iff.1 hds
    obtain ⟨fs, r, hfs, hr, rfl⟩ := exists_derivesAll_of_scan_eq (fun q hq cs => ih q hq) hes
    have hderives := Derives.app hl hn hm hfs hr
    rw [String.ofList_toList] at hderives
    simpa using hderives

/-- **The texts that write a regular term are those that have its tokens.** -/
theorem derives_iff_scan_eq : Derives cs t ↔ t.Regular ∧ Token.scan cs = t.tokens :=
  ⟨Derives.scan_eq, fun h => h.1.derives h.2⟩

theorem parse_eq_ok_iff {s : String} : parse s = .ok t ↔ Derives s.toList t := by
  rw [derives_iff_scan_eq, eq_comm (b := t.tokens), ← ofTokens?_eq_some_iff]
  unfold parse
  cases ofTokens? (Token.scan s.toList) <;> simp

theorem parse_eq_error_iff {s : String} {e : TypeError} :
    parse s = .error e ↔ e = .malformed s ∧ ∀ t, ¬ Derives s.toList t := by
  simp only [derives_iff_scan_eq, eq_comm (a := Token.scan s.toList), ← ofTokens?_eq_some_iff]
  unfold parse
  cases ofTokens? (Token.scan s.toList) <;> simp [eq_comm]

end TypeTerm

end Overloading
