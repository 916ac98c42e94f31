import LinkDiscovery.Proofs.Grammar.Spelling
/-!
Every expression that is read stands in the text as a legible spelling of its outline. Together with
the reading of legible spellings this says exactly what the grammar accepts.
-/

namespace LinkDiscovery.Grammar

open Text Text.Scanner

variable {input rest : List Char}

theorem spelled_eq_found {α : Type} {p : Scanner α} {s : String} {a : α}
    (h : spelled p input = .found (s, a) rest) :
    p input = .found a rest ∧ ∀ text, input = text ++ rest → s = String.ofList text := by
  unfold spelled at h
  split at h
  · rename_i b left hp
    obtain ⟨hs, rfl⟩ := Scan.found.inj h
    obtain ⟨rfl, rfl⟩ := Prod.mk.inj hs
    refine ⟨hp, ?_⟩
    rintro text rfl
    simp [appendFront_eq]
  · cases h
  · cases h

/-- A number that is read in front of a closing character stands there as a legible figure. -/
theorem number_eq_found {v : Float} (h : number input = .found v rest) (hrest : StartsClosing rest) :
    ∃ f : Figure, f.Legible ∧ f.value = v ∧ input = f.text ++ rest := by
  obtain ⟨text, rfl⟩ := number_advances _ _ _ h
  obtain ⟨c, tail, rfl, hc⟩ := hrest
  obtain ⟨outcome, hhalt⟩ := number_halts text
  have hfound := (hhalt c tail hc).symm.trans h
  cases outcome with
  | found v' left =>
      obtain ⟨rfl, hleft⟩ := Scan.found.inj hfound
      obtain rfl : left = [] := by simpa using hleft
      refine ⟨⟨text, v'⟩, ?_, rfl, rfl⟩
      rintro rest ⟨d, tail', rfl, hd⟩
      exact hhalt d tail' hd
  | missing | broken => cases hfound

theorem coefficient_eq_found {v : Float} (h : coefficient input = .found v rest) :
    ∃ (f : Figure) (gap : List Char), f.Legible ∧ Blanks gap ∧ f.value = v ∧
      input = f.text ++ (gap ++ '*' :: rest) := by
  obtain ⟨v', left, hnumber, h⟩ := bind_eq_found.mp h
  obtain ⟨_, left', hspaces, h⟩ := bind_eq_found.mp h
  obtain ⟨_, left'', hstar, h⟩ := bind_eq_found.mp h
  obtain ⟨rfl, rfl⟩ := Scan.found.inj h
  obtain ⟨gap, rfl, hgap, -⟩ := spaces_eq_found hspaces
  obtain rfl := token_eq_found.mp hstar
  obtain ⟨f, hf, hv, rfl⟩ := number_eq_found hnumber (hgap.startsClosing rfl _)
  exact ⟨f, gap, hf, hgap, hv, rfl⟩

/-- Whether a coefficient is cut short in front of a parenthesis does not depend on what follows. -/
theorem coefficient_not_broken {front : List Char} {c : Char} (hc : isParenthesis c = true)
    (h : coefficient (front ++ c :: rest) ≠ .broken) (rest' : List Char) :
    coefficient (front ++ c :: rest') ≠ .broken := by
  obtain ⟨outcome, hhalt⟩ := coefficient_halts front
  rw [hhalt c rest hc] at h
  rw [hhalt c rest' hc]
  cases outcome with
  | found | missing => exact fun h => nomatch h
  | broken => exact absurd rfl h

namespace Spelling

/-- A spelling goes on with an opening parenthesis. -/
theorem exists_open (w : Spelling) : ∃ front tail, w.chars = front ++ '(' :: tail := by
  cases w with
  | leaf name gap pieces => exact ⟨name ++ gap, _, by simp [chars]; rfl⟩
  | node k word gap f left g right => exact ⟨word ++ gap, _, by simp [chars]; rfl⟩

/-- Whether an expression looks like a coefficient does not depend on what follows it. -/
theorem coefficient_missing {w : Spelling} (h : coefficient (w.chars ++ rest) = .missing)
    (rest' : List Char) : coefficient (w.chars ++ rest') = .missing := by
  obtain ⟨front, tail, hw⟩ := w.exists_open
  obtain ⟨outcome, hhalt⟩ := coefficient_halts front
  rw [hw, List.append_assoc, List.cons_append] at h ⊢
  have hmissing := (hhalt '(' (tail ++ rest) rfl).symm.trans h
  cases outcome with
  | missing => exact hhalt '(' (tail ++ rest') rfl
  | found | broken => cases hmissing

end Spelling

/-- Every expression that a scanner reads stands in the text as a legible spelling. -/
def Recognizes (inner : Scanner Outline) : Prop :=
  ∀ input o rest, inner input = .found o rest →
    ∃ w : Spelling, w.Legible ∧ w.outline = o ∧ input = w.chars ++ rest

theorem term_eq_found {inner : Scanner Outline} (hinner : Recognizes inner) {t : Term} {o : Outline}
    (h : term inner input = .found (t, o) rest) (hrest : StartsClosing rest) :
    ∃ (f : Frame) (w : Spelling), f.Legible w.chars ∧ w.Legible ∧ t = f.term w.chars ∧
      o = w.outline ∧ input = f.around w.chars ++ rest := by
  obtain ⟨_, i₁, hspaces₁, h⟩ := bind_eq_found.mp h
  obtain ⟨v, i₂, hfactor, h⟩ := bind_eq_found.mp h
  obtain ⟨_, i₃, hspaces₂, h⟩ := bind_eq_found.mp h
  obtain ⟨⟨text, o'⟩, i₄, hspelled, h⟩ := bind_eq_found.mp h
  obtain ⟨_, i₅, hspaces₃, h⟩ := bind_eq_found.mp h
  obtain ⟨_, i₆, hbar, h⟩ := bind_eq_found.mp h
  obtain ⟨_, i₇, hspaces₄, h⟩ := bind_eq_found.mp h
  obtain ⟨θ, i₈, hnumber, h⟩ := bind_eq_found.mp h
  obtain ⟨_, i₉, hspaces₅, h⟩ := bind_eq_found.mp h
  obtain ⟨ht, rfl⟩ := Scan.found.inj h
  obtain ⟨rfl, rfl⟩ := Prod.mk.inj ht
  clear h ht
  obtain ⟨before, rfl, hbefore, hdark⟩ := spaces_eq_found hspaces₁
  obtain ⟨after, rfl, hafter, -⟩ := spaces_eq_found hspaces₂
  obtain ⟨hinner', htext⟩ := spelled_eq_found hspelled
  obtain ⟨w, hw, rfl, rfl⟩ := hinner _ _ _ hinner'
  obtain rfl := htext _ rfl
  obtain ⟨gap, rfl, hgap, -⟩ := spaces_eq_found hspaces₃
  obtain rfl := token_eq_found.mp hbar
  obtain ⟨lead, rfl, hlead, -⟩ := spaces_eq_found hspaces₄
  obtain ⟨tail, rfl, htail, -⟩ := spaces_eq_found hspaces₅
  obtain ⟨c, behind, rfl, hc⟩ := hrest
  obtain ⟨θ, hθ, rfl, rfl⟩ := number_eq_found hnumber (htail.startsClosing hc _)
  rcases optional_eq_found.mp hfactor with ⟨v, rfl, hcoefficient⟩ | ⟨rfl, hsame, hmissing⟩
  · obtain ⟨figure, star, hfigure, hstar, rfl, rfl⟩ := coefficient_eq_found hcoefficient
    have hlegible : Factor.Legible ⟨figure, star, after⟩ := ⟨hfigure, hstar, hafter⟩
    refine ⟨⟨before, some ⟨figure, star, after⟩, gap, lead, θ, tail⟩, w,
      ⟨hbefore, ?_, ?_, hgap, hlead, hθ, htail⟩, hw, rfl, rfl, ?_⟩
    · simpa using hlegible
    · simp
    · simp [Frame.around, Frame.factorChars, Factor.chars]
  · rw [← hsame] at hmissing hdark
    -- all blanks in front of the expression have been read before the coefficient was looked for
    have hnil : after = [] := by
      cases after with
      | nil => rfl
      | cons d after =>
          have hlight := hafter d List.mem_cons_self
          rw [hdark d rfl] at hlight
          cases hlight
    rw [hnil, List.nil_append] at hmissing hsame
    refine ⟨⟨before, none, gap, lead, θ, tail⟩, w,
      ⟨hbefore, by simp, fun _ => Spelling.coefficient_missing hmissing, hgap, hlead, hθ, htail⟩,
      hw, rfl, rfl, ?_⟩
    simp [Frame.around, Frame.factorChars, ← hsame]

/-- A term stops the alternatives where its coefficient is cut short. -/
theorem term_cut {blanks : List Char} (hblanks : Blanks blanks)
    (hbroken : coefficient rest = .broken) (inner : Scanner Outline) :
    term inner (blanks ++ rest) = .broken := by
  have hdark : StartsDark rest := by
    intro c hc
    obtain ⟨tail, rfl⟩ := List.head?_eq_some_iff.mp hc
    by_contra hspace
    have hmissing : number (c :: tail) = .missing :=
      number_closing (isSpace_isClosing (Bool.not_eq_false _ ▸ hspace))
    cases (bind_missing hmissing).symm.trans hbroken
  refine (bind_found (spaces_found hblanks hdark)).trans ?_
  exact bind_broken (optional_broken (p := coefficient) hbroken)

/-- A compound stops the alternatives where its first coefficient is cut short. -/
theorem compound_broken {word gap blanks : List Char} {k : Keyword}
    (hk : Keyword.ofLetters? word = some k) (hgap : Blanks gap) (hblanks : Blanks blanks)
    (hbroken : coefficient rest = .broken) (inner : Scanner Outline) :
    compound inner (word ++ (gap ++ '(' :: (blanks ++ rest))) = .broken := by
  refine (bind_found (keyword_open hk hgap _)).trans ?_
  refine (bind_found (spaces_found hgap (startsDark_cons rfl))).trans ?_
  exact (bind_found (token_cons '(')).trans (bind_broken (term_cut hblanks hbroken inner))

/-- A call that is read is a legible leaf, or else it begins as a compound does whose first coefficient
is cut short. -/
theorem call_eq_found {c : Call} (h : call input = .found c rest) :
    ∃ name gap pieces, input = (Spelling.leaf name gap pieces).chars ++ rest ∧
      c = { measure := String.ofList name, arguments := pieces.map argumentOf } ∧
      (Spelling.LegibleLeaf name gap pieces ∨
        ∃ k blanks left, Keyword.ofLetters? name = some k ∧ Blanks gap ∧ Blanks blanks ∧
          joined pieces ++ ')' :: rest = blanks ++ left ∧ coefficient left = .broken) := by
  obtain ⟨s, i₁, hname, h⟩ := bind_eq_found.mp h
  obtain ⟨_, i₂, hspaces, h⟩ := bind_eq_found.mp h
  obtain ⟨_, i₃, hopen, h⟩ := bind_eq_found.mp h
  obtain ⟨args, i₄, hargs, h⟩ := bind_eq_found.mp h
  obtain ⟨rfl, hrest⟩ := Scan.found.inj h
  obtain rfl : rest = i₄ := hrest.symm
  obtain ⟨name, rfl, rfl, hne, hchars⟩ := name_eq_found hname
  obtain ⟨gap, rfl, hgap, -⟩ := spaces_eq_found hspaces
  obtain rfl := token_eq_found.mp hopen
  obtain ⟨p, ps, rfl, hp, hpne, hps, rfl⟩ := arguments_eq_found hargs
  have hpieces : ∀ q ∈ p :: ps, IsPiece q ∧ trimChars q ≠ [] :=
    List.forall_mem_cons.mpr ⟨⟨hp, hpne⟩, hps⟩
  refine ⟨name, gap, p :: ps, by simp [Spelling.chars], rfl, ?_⟩
  by_cases hcut : Keyword.ofLetters? name ≠ none ∧
      coefficient ((joined (p :: ps)).dropWhile isSpace ++ ')' :: rest) = .broken
  · obtain ⟨hk, hbroken⟩ := hcut
    obtain ⟨k, hk⟩ := Option.ne_none_iff_exists'.mp hk
    refine .inr ⟨k, (joined (p :: ps)).takeWhile isSpace, _, hk, hgap,
      fun c hc => List.mem_takeWhile_imp hc, ?_, hbroken⟩
    rw [← List.append_assoc, List.takeWhile_append_dropWhile]
  · exact .inl ⟨hchars, hne, hgap, hpieces, by simp,
      fun hk => coefficient_not_broken rfl fun hbroken => hcut ⟨hk, hbroken⟩⟩

/-- A call that is not read as a compound is a legible leaf. -/
theorem leaf_eq_found {depth : ℕ} {text : String} {c : Call}
    (hcompound : compound (outline depth) input = .missing)
    (h : spelled call input = .found (text, c) rest) :
    ∃ w : Spelling, w.Legible ∧ w.outline = .leaf text c ∧ input = w.chars ++ rest := by
  obtain ⟨h, htext⟩ := spelled_eq_found h
  obtain ⟨name, gap, pieces, rfl, rfl, hw | ⟨k, blanks, left, hk, hgap, hblanks, hleft, hbroken⟩⟩ :=
    call_eq_found h
  · refine ⟨.leaf name gap pieces, hw, ?_, rfl⟩
    simp [Spelling.outline, htext _ rfl]
  · have hcut := compound_broken hk hgap hblanks hbroken (outline depth)
    rw [← hleft] at hcut
    simp [Spelling.chars, hcut] at hcompound

theorem outline_recognizes (depth : ℕ) : Recognizes (outline depth) := by
  induction depth with
  | zero => exact fun input o rest h => nomatch h
  | succ depth ih =>
      intro input o rest h
      rcases orElse_eq_found.mp h with h | ⟨hcompound, h⟩
      · obtain ⟨k, i₁, hkeyword, h⟩ := bind_eq_found.mp h
        obtain ⟨_, i₂, hspaces, h⟩ := bind_eq_found.mp h
        obtain ⟨_, i₃, hopen, h⟩ := bind_eq_found.mp h
        obtain ⟨⟨tl, ol⟩, i₄, hleft, h⟩ := bind_eq_found.mp h
        obtain ⟨_, i₅, hcomma, h⟩ := bind_eq_found.mp h
        obtain ⟨⟨tr, or⟩, i₆, hright, h⟩ := bind_eq_found.mp h
        obtain ⟨_, i₇, hclose, h⟩ := bind_eq_found.mp h
        obtain ⟨rfl, rfl⟩ := Scan.found.inj h
        obtain ⟨word, hk, rfl, -, -⟩ := keyword_eq_found hkeyword
        obtain ⟨gap, rfl, hgap, -⟩ := spaces_eq_found hspaces
        obtain rfl := token_eq_found.mp hopen
        obtain rfl := token_eq_found.mp hcomma
        obtain rfl := token_eq_found.mp hclose
        obtain ⟨f, left, hf, hl, rfl, rfl, rfl⟩ := term_eq_found ih hleft ⟨',', _, rfl, rfl⟩
        obtain ⟨g, right, hg, hr, rfl, rfl, rfl⟩ := term_eq_found ih hright ⟨')', _, rfl, rfl⟩
        refine ⟨.node k word gap f left g right, ⟨⟨hk, hgap⟩, ⟨hf, hl⟩, hg, hr⟩, rfl, ?_⟩
        simp [Spelling.chars]
      · obtain ⟨⟨text, c⟩, left, hspelled, h⟩ := bind_eq_found.mp h
        obtain ⟨rfl, rfl⟩ := Scan.found.inj h
        exact leaf_eq_found hcompound hspelled

end LinkDiscovery.Grammar
