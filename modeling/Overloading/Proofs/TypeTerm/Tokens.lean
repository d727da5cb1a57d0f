import Overloading.TypeTerm.Reader

/-! # The tokens of type terms

`tokens` lists the tokens that write a term. A reader takes a name without parentheses for a variable
or for a type by its letters alone, so it can give back a term only if every name in it stands for
what the letters say (`Regular`). The reader gives back the regular terms and reads nothing else
(`ofTokens?_eq_some_iff`): what has been read is known from the state that it has led to
(`Reader.tokens`, `Reader.tokens_run`). -/

namespace Overloading

namespace TypeTerm

mutual

/-- The tokens that write the term. -/
def tokens : TypeTerm → List Token
  | var v => [.name v]
  | app n [] => [.name n]
  | app n (p :: ps) => .name n :: .opening :: (p.tokens ++ tokensAfter ps)

/-- The tokens from the end of a parameter to the end of its application, if these parameters are
still to come. -/
def tokensAfter : List TypeTerm → List Token
  | [] => [.closing]
  | p :: ps => .comma :: (p.tokens ++ tokensAfter ps)

end

/-- A term is regular if every name in it stands for what a reader takes it for. -/
inductive Regular : TypeTerm → Prop
  | name (n : String) : Regular (ofName n)
  | app (n : String) {ps : List TypeTerm} : ps ≠ [] → (∀ p ∈ ps, Regular p) → Regular (app n ps)

@[simp] theorem tokens_ofName (n : String) : (ofName n).tokens = [.name n] := by
  unfold ofName
  split <;> simp [tokens]

theorem tokens_append_tokensAfter (p : TypeTerm) (ps : List TypeTerm) (t : TypeTerm) :
    p.tokens ++ tokensAfter (ps ++ [t]) =
      (p :: ps).flatMap (fun q => q.tokens ++ [.comma]) ++ t.tokens ++ [.closing] := by
  induction ps generalizing p with
  | nil => simp [tokensAfter]
  | cons q ps ih => simp [tokensAfter, ih q]

/-- The tokens of an application, seen from its last parameter. -/
theorem tokens_app_append (n : String) (ps : List TypeTerm) (t : TypeTerm) :
    (app n (ps ++ [t])).tokens = .name n :: .opening ::
      (ps.flatMap (fun q => q.tokens ++ [.comma]) ++ t.tokens ++ [.closing]) := by
  cases ps with
  | nil => simp [tokens, tokensAfter]
  | cons p ps =>
    rw [List.cons_append, tokens, tokens_append_tokensAfter]

end TypeTerm

namespace Reader

open TypeTerm (ofName Regular tokensAfter)

variable {st st' : Reader} {t : TypeTerm} {f : Frame} {fs : List Frame} {k : Token}
  {ts : List Token}

/-- The state after these tokens. -/
def run (st : Reader) (ts : List Token) : Option Reader := ts.foldlM step st

@[simp] theorem run_nil (st : Reader) : st.run [] = some st := rfl

@[simp] theorem run_cons (st : Reader) (k : Token) (ts : List Token) :
    st.run (k :: ts) = (st.step k).bind fun st' => st'.run ts := rfl

theorem run_append (st : Reader) (ts us : List Token) :
    st.run (ts ++ us) = (st.run ts).bind fun st' => st'.run us := by
  simp [run, List.foldlM_append]

/-! ### Tokens that are read -/

/-- In this state the term has ended, or has ended if no parentheses follow. -/
inductive Holds : Reader → TypeTerm → List Frame → Prop
  | named (n : String) (fs : List Frame) : Holds (.named n fs) (ofName n) fs
  | ended (t : TypeTerm) (fs : List Frame) : Holds (.ended t fs) t fs

theorem Holds.step_comma (h : st.Holds t (f :: fs)) :
    st.step .comma = some (.due (⟨f.name, f.params ++ [t]⟩ :: fs)) := by
  cases h <;> rfl

theorem Holds.step_closing (h : st.Holds t (f :: fs)) :
    st.step .closing = some (.ended (.app f.name (f.params ++ [t])) fs) := by
  cases h <;> rfl

theorem Holds.term?_eq (h : st.Holds t []) : st.term? = some t := by
  cases h <;> rfl

/-- Reading on from the end of a parameter to the end of its application. -/
theorem run_tokensAfter {n : String} {ps : List TypeTerm}
    (hps : ∀ p ∈ ps, ∀ fs : List Frame, ∃ st, st.Holds p fs ∧ (due fs).run p.tokens = some st)
    {qs : List TypeTerm} (h : st.Holds t (⟨n, qs⟩ :: fs)) :
    st.run (tokensAfter ps) = some (.ended (.app n (qs ++ t :: ps)) fs) := by
  induction ps generalizing st t qs with
  | nil => simp [tokensAfter, h.step_closing]
  | cons p ps ih =>
    rw [List.forall_mem_cons] at hps
    obtain ⟨st', hst', hrun⟩ := hps.1 (⟨n, qs ++ [t]⟩ :: fs)
    simp [tokensAfter, h.step_comma, run_append, hrun, ih hps.2 hst']

/-- **The tokens of a regular term are read.** -/
theorem exists_run_tokens (ht : t.Regular) (fs : List Frame) :
    ∃ st : Reader, st.Holds t fs ∧ (due fs).run t.tokens = some st := by
  induction ht generalizing fs with
  | name n => exact ⟨.named n fs, .named n fs, by simp [step]⟩
  | app n hne _ ih =>
    rename_i ps
    obtain ⟨p, ps, rfl⟩ := List.exists_cons_of_ne_nil hne
    rw [List.forall_mem_cons] at ih
    obtain ⟨st, hst, hrun⟩ := ih.1 (⟨n, []⟩ :: fs)
    refine ⟨_, .ended _ fs, ?_⟩
    simp [TypeTerm.tokens, step, run_append, hrun, run_tokensAfter ih.2 hst]

/-! ### What has been read -/

/-- The tokens of the applications that are still open. -/
def framesTokens : List Frame → List Token
  | [] => []
  | f :: fs =>
    framesTokens fs ++ .name f.name :: .opening :: f.params.flatMap fun p => p.tokens ++ [.comma]

/-- The tokens that lead to the state. -/
def tokens : Reader → List Token
  | due fs => framesTokens fs
  | named n fs => framesTokens fs ++ [.name n]
  | ended t fs => framesTokens fs ++ t.tokens

/-- The terms that have been read so far are regular. -/
def IsRegular : Reader → Prop
  | due fs | named _ fs => ∀ f ∈ fs, ∀ p ∈ f.params, p.Regular
  | ended t fs => t.Regular ∧ ∀ f ∈ fs, ∀ p ∈ f.params, p.Regular

/-- A mark after a term adds itself to what has been read. -/
theorem tokens_close (ht : t.Regular) (hfs : ∀ f ∈ fs, ∀ p ∈ f.params, p.Regular)
    (h : close t fs k = some st) : st.tokens = framesTokens fs ++ t.tokens ++ [k] ∧ st.IsRegular := by
  cases fs with
  | nil => cases k <;> cases h
  | cons f fs =>
    rw [List.forall_mem_cons] at hfs
    have hps : ∀ p ∈ f.params ++ [t], p.Regular := by
      simpa [or_imp, forall_and] using ⟨hfs.1, ht⟩
    cases k with
    | name n => cases h
    | opening => cases h
    | comma =>
      cases h
      exact ⟨by simp [tokens, framesTokens], List.forall_mem_cons.2 ⟨hps, hfs.2⟩⟩
    | closing =>
      cases h
      exact ⟨by simp [tokens, framesTokens, TypeTerm.tokens_app_append],
        .app f.name (by simp) hps, hfs.2⟩

/-- **A step adds the token that it takes.** -/
theorem tokens_step (hst : st.IsRegular) (h : st.step k = some st') :
    st'.tokens = st.tokens ++ [k] ∧ st'.IsRegular := by
  cases st with
  | due fs =>
    cases k with
    | name n =>
      cases h
      exact ⟨rfl, hst⟩
    | opening | comma | closing => cases h
  | named n fs =>
    cases k with
    | opening =>
      cases h
      exact ⟨by simp [tokens, framesTokens], List.forall_mem_cons.2 ⟨by simp, hst⟩⟩
    | name | comma | closing =>
      rw [tokens, ← TypeTerm.tokens_ofName n]
      exact tokens_close (.name n) hst h
  | ended t fs => exact tokens_close hst.1 hst.2 h

/-- **What has been read is known from the state that it has led to.** -/
theorem tokens_run (hst : st.IsRegular) (h : st.run ts = some st') :
    st'.tokens = st.tokens ++ ts ∧ st'.IsRegular := by
  induction ts generalizing st with
  | nil =>
    cases h
    exact ⟨(List.append_nil _).symm, hst⟩
  | cons k ts ih =>
    obtain ⟨st₁, hstep, hrun⟩ := Option.bind_eq_some_iff.1 h
    obtain ⟨htokens, hreg⟩ := tokens_step hst hstep
    obtain ⟨htokens', hreg'⟩ := ih hreg hrun
    exact ⟨by rw [htokens', htokens, List.append_assoc, List.singleton_append], hreg'⟩

theorem tokens_of_term? (hst : st.IsRegular) (h : st.term? = some t) :
    t.Regular ∧ st.tokens = t.tokens := by
  cases st with
  | due fs => cases h
  | named n fs =>
    cases fs with
    | nil =>
      cases h
      exact ⟨.name n, by simp [tokens, framesTokens]⟩
    | cons f fs => cases h
  | ended u fs =>
    cases fs with
    | nil =>
      cases h
      exact ⟨hst.1, rfl⟩
    | cons f fs => cases h

end Reader

/-- **The reader gives back the regular terms, each from its tokens, and reads nothing else.** -/
theorem TypeTerm.ofTokens?_eq_some_iff {ts : List Token} {t : TypeTerm} :
    ofTokens? ts = some t ↔ t.Regular ∧ t.tokens = ts := by
  constructor
  · intro h
    obtain ⟨st, hrun, hterm⟩ := Option.bind_eq_some_iff.1 h
    have hstart : (Reader.due []).IsRegular := List.forall_mem_nil _
    obtain ⟨htokens, hreg⟩ := Reader.tokens_run hstart hrun
    obtain ⟨ht, hsame⟩ := Reader.tokens_of_term? hreg hterm
    exact ⟨ht, by rw [← hsame, htokens]; rfl⟩
  · rintro ⟨ht, rfl⟩
    obtain ⟨st, hst, hrun⟩ := Reader.exists_run_tokens ht []
    exact Option.bind_eq_some_iff.2 ⟨st, hrun, hst.term?_eq⟩

end Overloading
