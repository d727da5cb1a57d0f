import Mathlib.Data.String.Basic
import Overloading.Proofs.TypeTerm.Grammar

/-! # Reading type terms by descent

A text can also be read by functions that call one another as the grammar does, over a cursor that is
an offset in bytes (`Descent.parse`). They cut the text at offsets that they work out from the sizes
of names and of what is left, and a cut that is no character boundary would stop them. So would a
chain of calls inside each other that is longer than the bound they are given. Neither happens if the
bound exceeds the number of characters: the functions answer for every text, and their answer is that
of `TypeTerm.parse` (`Descent.parse_eq`). One more call preserves the agreement
(`Descent.agrees_term_succ`, `Descent.agrees_params_succ`), since it starts where less is left. -/

namespace Overloading

open Text (AllBlank trimLeft)
open Token (scan ofChar?)

namespace Text

/-- The text before and after an offset in bytes. There is none past the end of the text or inside a
character. -/
def cut? : Nat → List Char → Option (List Char × List Char)
  | 0, cs => some ([], cs)
  | _ + 1, [] => none
  | n + 1, c :: cs =>
    if c.utf8Size ≤ n + 1 then
      (cut? (n + 1 - c.utf8Size) cs).map fun parts => (c :: parts.1, parts.2)
    else none

theorem cut?_append (l r : List Char) : cut? (String.utf8Len l) (l ++ r) = some (l, r) := by
  induction l with
  | nil => simp [cut?]
  | cons c l ih =>
    have hpos : 0 < c.utf8Size := c.utf8Size_pos
    obtain ⟨n, hn⟩ : ∃ n, String.utf8Len (c :: l) = n + 1 :=
      Nat.exists_eq_add_one.2 (by rw [String.utf8Len_cons]; omega)
    have hle : c.utf8Size ≤ n + 1 := by rw [← hn, String.utf8Len_cons]; omega
    have hrest : n + 1 - c.utf8Size = String.utf8Len l := by
      rw [← hn, String.utf8Len_cons]
      omega
    rw [hn, List.cons_append, cut?, if_pos hle, hrest, ih]
    rfl

theorem eq_append_of_cut? {n : Nat} {cs l r : List Char} (h : cut? n cs = some (l, r)) :
    cs = l ++ r ∧ String.utf8Len l = n := by
  induction cs generalizing n l with
  | nil =>
    cases n with
    | zero =>
      cases h
      exact ⟨rfl, rfl⟩
    | succ n => cases h
  | cons c cs ih =>
    cases n with
    | zero =>
      cases h
      exact ⟨rfl, rfl⟩
    | succ n =>
      rw [cut?] at h
      split at h
      · obtain ⟨⟨l', r'⟩, hcut, heq⟩ := Option.map_eq_some_iff.1 h
        cases heq
        obtain ⟨rfl, hlen⟩ := ih hcut
        refine ⟨rfl, ?_⟩
        rw [String.utf8Len_cons, hlen]
        omega
      · cases h

/-- **A text can be cut at its character boundaries and nowhere else.** -/
theorem isSome_cut?_iff {s : String} {n : Nat} :
    (cut? n s.toList).isSome = true ↔ String.Pos.Raw.IsValid s ⟨n⟩ := by
  rw [String.Pos.Raw.isValid_iff_exists_append]
  constructor
  · intro h
    obtain ⟨⟨l, r⟩, hcut⟩ := Option.isSome_iff_exists.1 h
    obtain ⟨hs, hn⟩ := eq_append_of_cut? hcut
    refine ⟨String.ofList l, String.ofList r, ?_, ?_⟩
    · rw [← String.ofList_append, ← hs, String.ofList_toList]
    · rw [String.rawEndPos, String.utf8ByteSize_ofList, hn]
  · rintro ⟨s₁, s₂, rfl, hn⟩
    have hsize : String.utf8Len s₁.toList = n := by
      rw [← String.utf8ByteSize_ofList, String.ofList_toList]
      exact (congrArg String.Pos.Raw.byteIdx hn).symm
    rw [String.toList_append, ← hsize, cut?_append]
    rfl

end Text

namespace Reader

/-- The term that is read if these tokens follow. -/
def read? (st : Reader) (ts : List Token) : Option TypeTerm := (st.run ts).bind term?

theorem read?_cons (st : Reader) (k : Token) (ts : List Token) :
    st.read? (k :: ts) = (st.step k).bind fun st' => st'.read? ts := by
  rw [read?, run_cons, Option.bind_assoc]
  rfl

end Reader

namespace Descent

variable (s : String)

/-- What is left of the text. -/
def rest? (pos : Nat) : Option (List Char) := (Text.cut? pos s.toList).map Prod.snd

/-- The name up to the next mark, and the offset of the mark. -/
def name? (pos : Nat) : Option (List Char × Nat) := do
  let rest ← rest? s pos
  let size := String.utf8Len (rest.takeWhile fun c => (ofChar? c).isNone)
  let gap ← (Text.cut? size rest).map Prod.fst
  return (Text.trim gap, pos + size)

/-- The offset after the mark and the blanks around it, if the mark is next. -/
def eat? (mark : Char) (pos : Nat) : Option (Option Nat) := do
  let rest ← rest? s pos
  if (trimLeft rest).head? = some mark then
    let after ← (Text.cut? mark.utf8Size (trimLeft rest)).map Prod.snd
    return some (s.utf8ByteSize - String.utf8Len (trimLeft after))
  else
    return none

mutual

/-- The term at the offset, and the offset after it. No more than `fuel` calls may be inside each
other. -/
def term : (fuel pos : Nat) → ExceptT TypeError Option (TypeTerm × Nat)
  | 0, _ => ExceptT.mk none
  | fuel + 1, pos => do
    let (n, pos) ← name? s pos
    if n = [] then throw (.malformed s)
    match ← eat? s '(' pos with
    | none => return (.ofName (String.ofList n), pos)
    | some pos =>
      let (p, pos) ← term fuel pos
      let (ps, pos) ← params fuel pos [p]
      match ← eat? s ')' pos with
      | none => throw (.malformed s)
      | some pos => return (.app (String.ofList n) ps, pos)

/-- These parameters and those that follow with a comma before each, and the offset after them. -/
def params : (fuel pos : Nat) → List TypeTerm → ExceptT TypeError Option (List TypeTerm × Nat)
  | 0, _, _ => ExceptT.mk none
  | fuel + 1, pos, ps => do
    match ← eat? s ',' pos with
    | none => return (ps, pos)
    | some pos =>
      let (p, pos) ← term fuel pos
      params fuel pos (ps ++ [p])

end

/-- The term that the text writes, read by descent. -/
def parse (fuel : Nat) : ExceptT TypeError Option TypeTerm := do
  let (t, pos) ← term s fuel 0
  if pos ≠ s.utf8ByteSize then throw (.malformed s)
  return t

variable {s : String} {fuel pos : Nat} {rest gap cs : List Char} {c : Char}

/-! ### Cursors -/

/-- The text that is left at the offset. -/
def At (s : String) (pos : Nat) (rest : List Char) : Prop :=
  ∃ l, s.toList = l ++ rest ∧ String.utf8Len l = pos

theorem at_zero (s : String) : At s 0 s.toList := ⟨[], rfl, rfl⟩

theorem At.rest?_eq (h : At s pos rest) : rest? s pos = some rest := by
  obtain ⟨l, hs, rfl⟩ := h
  rw [rest?, hs, Text.cut?_append]
  rfl

theorem At.add (h : At s pos (gap ++ rest)) : At s (pos + String.utf8Len gap) rest := by
  obtain ⟨l, hs, rfl⟩ := h
  exact ⟨l ++ gap, by rw [hs, List.append_assoc], by simp⟩

/-- An offset may be counted from the end. -/
theorem At.sub (h : At s pos (gap ++ rest)) :
    At s (s.utf8ByteSize - String.utf8Len rest) rest := by
  obtain ⟨l, hs, -⟩ := h
  refine ⟨l ++ gap, by rw [hs, List.append_assoc], ?_⟩
  rw [← String.utf8Len_toList, hs]
  simp only [String.utf8Len_append]
  omega

theorem At.eq_utf8ByteSize_iff (h : At s pos rest) : pos = s.utf8ByteSize ↔ rest = [] := by
  obtain ⟨l, hs, rfl⟩ := h
  rw [← String.utf8Len_toList, hs, String.utf8Len_append, Nat.left_eq_add, String.utf8Len_eq_zero]

theorem At.name?_eq (h : At s pos (gap ++ rest)) (hgap : ∀ c ∈ gap, ofChar? c = none)
    (hrest : ∀ c ∈ rest.head?, ofChar? c ≠ none) :
    name? s pos = some (Text.trim gap, pos + String.utf8Len gap) := by
  have htake : (gap ++ rest).takeWhile (fun c => (ofChar? c).isNone) = gap := by
    rw [List.takeWhile_append_of_pos fun c hc => by rw [hgap c hc]; rfl]
    cases rest with
    | nil => simp
    | cons c rest => simp [hrest c rfl]
  simp [name?, h.rest?_eq, htake, Text.cut?_append]

theorem At.eat?_eq (h : At s pos (c :: rest)) (hc : Text.isBlank c = false) :
    ∃ q, eat? s c pos = some (some q) ∧ At s q (trimLeft rest) := by
  have htrim : trimLeft (c :: rest) = c :: rest := Text.trimLeft_eq_self_iff.2 (by simpa using hc)
  have hcut : Text.cut? c.utf8Size (c :: rest) = some ([c], rest) := by
    simpa using Text.cut?_append [c] rest
  obtain ⟨l, -, hl⟩ := Text.exists_eq_append_trimLeft rest
  refine ⟨s.utf8ByteSize - String.utf8Len (trimLeft rest), ?_, ?_⟩
  · simp [eat?, h.rest?_eq, htrim, hcut]
  · have hat : At s pos (c :: l ++ trimLeft rest) := by rwa [List.cons_append, ← hl]
    exact hat.sub

theorem At.eat?_eq_none (h : At s pos rest) (hc : (trimLeft rest).head? ≠ some c) :
    eat? s c pos = some none := by
  rw [eat?, h.rest?_eq, Option.bind_eq_bind, Option.bind_some, if_neg hc]
  rfl

/-! ### What is read -/

open Reader (due named ended)

variable {t p : TypeTerm} {f : Frame} {fs : List Frame} {n : String} {k : Token} {ts : List Token}

theorem scan_trimLeft (cs : List Char) : scan (trimLeft cs) = scan cs := by
  obtain ⟨l, hl, hcs⟩ := Text.exists_eq_append_trimLeft cs
  have hscan : scan (l ++ trimLeft cs) = scan (trimLeft cs) := Token.scan_append_of_allBlank hl _
  rw [← hscan, ← hcs]

/-- The mark that the tokens start with is the first character that is no blank. -/
theorem head?_trimLeft_of_scan (hc : ofChar? c = some k) (h : scan cs = k :: ts) :
    (trimLeft cs).head? = some c := by
  have hk : ∀ n, k ≠ .name n := fun n hn => Token.ofChar?_ne_name (hn ▸ hc)
  have happ : scan cs = [] ++ k :: ts := h
  obtain ⟨ds, d, es, rfl, hd, hds, -⟩ := Token.exists_of_scan_eq_append hk happ
  obtain rfl := Token.ofChar?_injective hc hd
  have hblank : ∀ e ∈ (c :: es).head?, Text.isBlank e = false := by
    simpa using Token.isBlank_of_ofChar? hc
  rw [Text.trimLeft_append (Token.scan_eq_nil_iff.1 hds), Text.trimLeft_eq_self_iff.2 hblank]
  rfl

/-- A name that no parenthesis follows is a term that has ended. -/
theorem read?_named (h : (trimLeft cs).head? ≠ some '(') :
    (named n fs).read? (scan cs) = (ended (.ofName n) fs).read? (scan cs) := by
  cases hscan : scan cs with
  | nil => cases fs <;> rfl
  | cons k ts =>
    cases k with
    | opening => exact absurd (head?_trimLeft_of_scan rfl hscan) h
    | name | comma | closing => rfl

theorem read?_ended_cons_eq_none (hcomma : (trimLeft cs).head? ≠ some ',')
    (hclosing : (trimLeft cs).head? ≠ some ')') :
    (ended t (f :: fs)).read? (scan cs) = none := by
  cases hscan : scan cs with
  | nil => rfl
  | cons k ts =>
    cases k with
    | comma => exact absurd (head?_trimLeft_of_scan rfl hscan) hcomma
    | closing => exact absurd (head?_trimLeft_of_scan rfl hscan) hclosing
    | name | opening => rfl

/-- A term that is due does not start with a mark. -/
theorem read?_due_eq_none (h : ∀ c ∈ cs.head?, ofChar? c ≠ none) :
    (due fs).read? (scan cs) = none := by
  cases cs with
  | nil => rfl
  | cons c cs =>
    obtain ⟨k, hk⟩ := Option.ne_none_iff_exists'.1 (h c rfl)
    have hscan : scan (c :: cs) = k :: scan cs := Token.scan_append_mark hk [] cs
    rw [hscan]
    cases k with
    | name n => exact absurd hk Token.ofChar?_ne_name
    | opening | comma | closing => rfl

theorem read?_ended_nil_eq_none (hne : cs ≠ []) (htrim : trimLeft cs = cs) :
    (ended t []).read? (scan cs) = none := by
  cases hscan : scan cs with
  | nil =>
    rw [Token.scan_eq_nil_iff, ← Text.trimLeft_eq_nil_iff, htrim] at hscan
    exact absurd hscan hne
  | cons k ts => cases k <;> rfl

/-! ### The steps of the descent -/

variable {q q' : Nat} {name : List Char} {ps : List TypeTerm}

theorem params_of_no_comma (h : eat? s ',' pos = some none) : params s (fuel + 1) pos ps = pure (ps, pos) := by
  rw [params, h]
  rfl

theorem params_of_comma (h : eat? s ',' pos = some (some q)) :
    params s (fuel + 1) pos ps = term s fuel q >>= fun r => params s fuel r.2 (ps ++ [r.1]) := by
  rw [params, h]
  rfl

theorem term_of_no_name (h : name? s pos = some ([], q)) : term s (fuel + 1) pos = throw (.malformed s) := by
  rw [term, h]
  rfl

theorem term_of_name (h : name? s pos = some (name, q)) (hname : name ≠ [])
    (heat : eat? s '(' q = some none) : term s (fuel + 1) pos = pure (.ofName (String.ofList name), q) := by
  rw [term, h]
  show (if name = [] then _ else _) = _
  rw [if_neg hname, heat]
  rfl

/-- The end of an application: the parenthesis after its parameters. -/
def close (s : String) (n : String) (r : List TypeTerm × Nat) :
    ExceptT TypeError Option (TypeTerm × Nat) := do
  match ← eat? s ')' r.2 with
  | none => throw (.malformed s)
  | some pos => return (.app n r.1, pos)

theorem term_of_opening (h : name? s pos = some (name, q)) (hname : name ≠ [])
    (heat : eat? s '(' q = some (some q')) :
    term s (fuel + 1) pos = term s fuel q' >>= fun r => params s fuel r.2 [r.1] >>= close s (String.ofList name) := by
  rw [term, h]
  show (if name = [] then _ else _) = _
  rw [if_neg hname, heat]
  rfl

/-! ### The descent and the reader -/

variable {a : ExceptT TypeError Option (TypeTerm × Nat)} {start : List Frame → Reader}

/-- The descent answers `a` where `rest` is left, and the reader agrees with it from the states
`start`: it goes on where the descent has ended, or it reads no term if the descent gives up. -/
inductive Agrees (s : String) (rest : List Char) (a : ExceptT TypeError Option (TypeTerm × Nat))
    (start : List Frame → Reader) : Prop
  | ok (t : TypeTerm) (q : Nat) (left : List Char) : a = pure (t, q) → At s q left →
      left.length < rest.length → trimLeft left = left →
      (∀ fs, (start fs).read? (scan rest) = (ended t fs).read? (scan left)) → Agrees s rest a start
  | malformed : a = throw (.malformed s) → (∀ fs, (start fs).read? (scan rest) = none) →
      Agrees s rest a start

/-- What comes after a term may be looked at by itself. -/
theorem Agrees.bind (h : Agrees s rest a start) (g : List Frame → List Frame)
    {next : TypeTerm × Nat → ExceptT TypeError Option (TypeTerm × Nat)}
    (hnext : ∀ t q left, At s q left → left.length < rest.length → trimLeft left = left →
      Agrees s left (next (t, q)) fun fs => ended t (g fs)) :
    Agrees s rest (a >>= next) fun fs => start (g fs) := by
  rcases h with ⟨t, q, left, rfl, hat, hlen, htrim, hsame⟩ | ⟨rfl, hnone⟩
  · rw [pure_bind]
    rcases hnext t q left hat hlen htrim with
      ⟨u, q', left', heq, hat', hlen', htrim', hsame'⟩ | ⟨heq, hnone⟩
    · exact .ok u q' left' heq hat' (hlen'.trans hlen) htrim' fun fs =>
        (hsame (g fs)).trans (hsame' fs)
    · exact .malformed heq fun fs => (hsame (g fs)).trans (hnone fs)
  · exact .malformed rfl fun fs => hnone (g fs)

theorem length_trimLeft_lt (c : Char) (cs : List Char) :
    (trimLeft cs).length < (c :: cs).length :=
  Nat.lt_succ_of_le (List.dropWhile_sublist _).length_le

theorem read?_cons_mark {st st' : Reader} (hc : ofChar? c = some k) (hstep : st.step k = some st')
    (cs : List Char) : st.read? (scan (c :: cs)) = st'.read? (scan (trimLeft cs)) := by
  have hscan : scan (c :: cs) = k :: scan cs := Token.scan_append_mark hc [] cs
  rw [hscan, Reader.read?_cons, hstep, Option.bind_some, scan_trimLeft]

/-- The two still agree where the reader has been before. -/
theorem Agrees.of_read {next : List Frame → Reader} (h : Agrees s cs a next)
    (hlen : cs.length ≤ rest.length)
    (hread : ∀ fs, (start fs).read? (scan rest) = (next fs).read? (scan cs)) :
    Agrees s rest a start := by
  rcases h with ⟨t, q, left, heq, hat, hlt, htrim, hsame⟩ | ⟨heq, hnone⟩
  · exact .ok t q left heq hat (hlt.trans_le hlen) htrim fun fs => (hread fs).trans (hsame fs)
  · exact .malformed heq fun fs => (hread fs).trans (hnone fs)

theorem exists_eq_cons_of_head? {cs : List Char} (h : cs.head? = some c) :
    ∃ after, cs = c :: after := by
  cases cs with
  | nil => cases h
  | cons d after => exact ⟨after, by rw [Option.some.inj h]⟩

/-- The end of a parameter and what follows up to the end of the application, if the calls inside
agree. -/
theorem agrees_params_succ
    (hterm : ∀ {pos cs}, cs.length < fuel → At s pos cs → Agrees s cs (term s fuel pos) due)
    (hparams : ∀ ps p {pos cs}, cs.length < fuel → At s pos cs → trimLeft cs = cs →
      Agrees s cs (params s fuel pos (ps ++ [p]) >>= close s n) fun fs => ended p (⟨n, ps⟩ :: fs))
    (hlen : rest.length < fuel + 1) (h : At s pos rest) (htrim : trimLeft rest = rest) :
    Agrees s rest (params s (fuel + 1) pos (ps ++ [p]) >>= close s n) fun fs =>
      ended p (⟨n, ps⟩ :: fs) := by
  by_cases hcomma : rest.head? = some ','
  · obtain ⟨after, rfl⟩ := exists_eq_cons_of_head? hcomma
    obtain ⟨q, heat, hat⟩ := h.eat?_eq (by decide)
    have hlt := length_trimLeft_lt ',' after
    rw [params_of_comma heat, bind_assoc]
    refine Agrees.of_read ?_ hlt.le fun fs => read?_cons_mark rfl rfl after
    refine (hterm (by omega) hat).bind (fun fs => ⟨n, ps ++ [p]⟩ :: fs) ?_
    exact fun t q left hat' hlt' htrim' => hparams _ t (by omega) hat' htrim'
  · rw [params_of_no_comma (h.eat?_eq_none (by rwa [htrim])), pure_bind]
    by_cases hclosing : rest.head? = some ')'
    · obtain ⟨after, rfl⟩ := exists_eq_cons_of_head? hclosing
      obtain ⟨q, heat, hat⟩ := h.eat?_eq (by decide)
      refine .ok (.app n (ps ++ [p])) q (trimLeft after) ?_ hat (length_trimLeft_lt _ _)
        (Text.trimLeft_trimLeft after) fun fs => ?_
      · rw [close, heat]
        rfl
      · exact read?_cons_mark rfl rfl after
    · refine .malformed ?_ fun fs => ?_
      · rw [close, h.eat?_eq_none (by rwa [htrim])]
        rfl
      · exact read?_ended_cons_eq_none (by rwa [htrim]) (by rwa [htrim])

/-- A term, if the calls inside agree. -/
theorem agrees_term_succ
    (hterm : ∀ {pos cs}, cs.length < fuel → At s pos cs → Agrees s cs (term s fuel pos) due)
    (hparams : ∀ n ps p {pos cs}, cs.length < fuel → At s pos cs → trimLeft cs = cs →
      Agrees s cs (params s fuel pos (ps ++ [p]) >>= close s n) fun fs => ended p (⟨n, ps⟩ :: fs))
    (hlen : rest.length < fuel + 1) (h : At s pos rest) :
    Agrees s rest (term s (fuel + 1) pos) due := by
  obtain ⟨gap, tail, rfl, hgap, htail, hscan⟩ := Token.exists_gap rest
  have hname := h.name?_eq hgap htail
  have hat : At s (pos + String.utf8Len gap) tail := h.add
  have htrim : trimLeft tail = tail := Text.trimLeft_eq_self_iff.2 fun c hc => by
    obtain ⟨k, hk⟩ := Option.ne_none_iff_exists'.1 (htail c hc)
    exact Token.isBlank_of_ofChar? hk
  by_cases hblank : Text.trim gap = []
  · rw [hblank] at hname
    refine .malformed (term_of_no_name hname) fun fs => ?_
    rw [hscan, Token.ofGap_eq_nil_iff.2 (Text.trim_eq_nil_iff.1 hblank), List.nil_append]
    exact read?_due_eq_none htail
  · have hread : ∀ fs, (due fs).read? (scan (gap ++ tail)) =
        (named (String.ofList (Text.trim gap)) fs).read? (scan tail) := by
      intro fs
      rw [hscan, Token.ofGap_of_trim_ne_nil hblank]
      exact Reader.read?_cons _ _ _
    have hlt : tail.length < (gap ++ tail).length := by
      have hpos : 0 < gap.length := List.length_pos_iff.2 fun hnil => hblank (by rw [hnil]; rfl)
      rw [List.length_append]
      omega
    by_cases hopening : tail.head? = some '('
    · obtain ⟨after, rfl⟩ := exists_eq_cons_of_head? hopening
      obtain ⟨q, heat, hat'⟩ := hat.eat?_eq (by decide)
      have hlt' := (length_trimLeft_lt '(' after).trans hlt
      rw [term_of_opening hname hblank heat]
      refine Agrees.of_read ?_ hlt'.le fun fs => (hread fs).trans (read?_cons_mark rfl rfl after)
      refine (hterm (by omega) hat').bind (fun fs => ⟨_, []⟩ :: fs) ?_
      exact fun p q left hat'' hlt'' htrim'' => hparams _ [] p (by omega) hat'' htrim''
    · have heat : eat? s '(' (pos + String.utf8Len gap) = some none :=
        hat.eat?_eq_none (by rwa [htrim])
      exact .ok _ _ tail (term_of_name hname hblank heat) hat hlt htrim fun fs =>
        (hread fs).trans (read?_named (by rwa [htrim]))

/-- **The descent and the reader agree** as long as more calls may be made inside each other than
characters are left. -/
theorem agrees (s : String) (fuel : Nat) :
    (∀ {pos rest}, rest.length < fuel → At s pos rest → Agrees s rest (term s fuel pos) due) ∧
      ∀ n ps p {pos rest}, rest.length < fuel → At s pos rest → trimLeft rest = rest →
        Agrees s rest (params s fuel pos (ps ++ [p]) >>= close s n) fun fs =>
          ended p (⟨n, ps⟩ :: fs) := by
  induction fuel with
  | zero =>
    exact ⟨fun h => absurd h (Nat.not_lt_zero _), fun _ _ _ _ _ h => absurd h (Nat.not_lt_zero _)⟩
  | succ fuel ih =>
    exact ⟨agrees_term_succ ih.1 ih.2, fun n _ _ _ _ => agrees_params_succ ih.1 (ih.2 n)⟩

/-- **The descent answers for every text, and its answer is that of the reader.** -/
theorem parse_eq (h : s.length < fuel) : (parse s fuel).run = some (TypeTerm.parse s) := by
  have hread : TypeTerm.ofTokens? (scan s.toList) = (due []).read? (scan s.toList) := rfl
  unfold TypeTerm.parse
  rw [hread]
  rcases (agrees s fuel).1 h (at_zero s) with
    ⟨t, q, left, hterm, hat, -, htrim, hsame⟩ | ⟨hterm, hnone⟩
  · rw [hsame, parse, hterm, pure_bind]
    by_cases hleft : left = []
    · have hq : q = s.utf8ByteSize := hat.eq_utf8ByteSize_iff.2 hleft
      simp only [hq, ne_eq, not_true_eq_false, if_false, hleft]
      rfl
    · have hq : q ≠ s.utf8ByteSize := fun hq => hleft (hat.eq_utf8ByteSize_iff.1 hq)
      rw [read?_ended_nil_eq_none hleft htrim]
      simp only [hq, ne_eq, not_false_eq_true, if_true]
      rfl
  · rw [hnone, parse, hterm]
    rfl

end Descent

/-- **The texts that are read are those that write a term.** Such a text is read as the term that it
writes, every other text is malformed, and it is the whole text that the error carries. The functions
that read by descent give the same answers wherever more calls may be inside each other than the text
has characters, and they never cut it past its end or inside a character. -/
theorem TypeTerm.parse_iff_derives (s : String) :
    (∀ t, parse s = .ok t ↔ Derives s.toList t) ∧
      (∀ e, parse s = .error e ↔ e = .malformed s ∧ ∀ t, ¬ Derives s.toList t) ∧
      ∀ fuel, s.length < fuel → (Descent.parse s fuel).run = some (parse s) :=
  ⟨fun _ => parse_eq_ok_iff, fun _ => parse_eq_error_iff, fun _ h => Descent.parse_eq h⟩

/-- A text with blanks and a character of two bytes, and one with something behind its term. -/
theorem TypeTerm.parse_iff_derives_tree :
    Derives " größe ( E,text )".toList (.app "größe" [.var "E", .app "text" []]) ∧
      (Descent.parse " größe ( E,text )" 18).run =
        some (.ok (.app "größe" [.var "E", .app "text" []])) ∧
      (∀ t, ¬ Derives "array(text) x".toList t) ∧
      (Descent.parse "array(text) x" 14).run = some (.error (.malformed "array(text) x")) := by
  obtain ⟨hok, -, hdescent⟩ := parse_iff_derives " größe ( E,text )"
  obtain ⟨-, herror, hdescent'⟩ := parse_iff_derives "array(text) x"
  have hparse : parse " größe ( E,text )" = .ok (.app "größe" [.var "E", .app "text" []]) := by
    decide +kernel
  have hparse' : parse "array(text) x" = .error (.malformed "array(text) x") := by decide +kernel
  refine ⟨(hok _).1 hparse, ?_, ((herror _).1 hparse').2, ?_⟩
  · rw [hdescent 18 (by decide), hparse]
  · rw [hdescent' 14 (by decide), hparse']

end Overloading
