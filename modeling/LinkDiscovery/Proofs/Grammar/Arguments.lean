import LinkDiscovery.Proofs.Grammar.Tokens
/-!
The arguments of a call as they are written: pieces of text between commas, up to the parenthesis
that closes them.
-/

namespace LinkDiscovery.Grammar

open Text Text.Scanner

variable {rest : List Char}

/-- The text of an argument, with what stands around it. -/
def IsPiece (piece : List Char) : Prop :=
  ∀ c ∈ piece, c ≠ ',' ∧ c ≠ '(' ∧ c ≠ ')' ∧ c ≠ '|'

/-- The argument that a piece of text holds. -/
def argumentOf (piece : List Char) : String :=
  String.ofList (trimChars piece)

/-- The texts of arguments with their commas. -/
def joined (pieces : List (List Char)) : List Char :=
  [','].intercalate pieces

theorem joined_cons_cons (p q : List Char) (ps : List (List Char)) :
    joined (p :: q :: ps) = p ++ ',' :: joined (q :: ps) := by
  simp [joined, List.intercalate_cons_cons]

theorem joined_singleton (p : List Char) : joined [p] = p := by
  simp [joined]

theorem joined_cons_char (c : Char) (p : List Char) (ps : List (List Char)) :
    joined ((c :: p) :: ps) = c :: joined (p :: ps) := by
  cases ps with
  | nil => simp [joined_singleton]
  | cons q ps => simp [joined_cons_cons]

theorem not_mem_joined {pieces : List (List Char)} {c : Char} (hc : c ≠ ',')
    (h : ∀ p ∈ pieces, c ∉ p) : c ∉ joined pieces := by
  induction pieces with
  | nil => simp [joined]
  | cons p ps ih =>
      have hp := h p List.mem_cons_self
      cases ps with
      | nil => rwa [joined_singleton]
      | cons q ps =>
          have ih := ih fun r hr => h r (List.mem_cons_of_mem p hr)
          simp [joined_cons_cons, hp, hc, ih]

theorem parenthesis_not_mem_joined {pieces : List (List Char)} (h : ∀ p ∈ pieces, IsPiece p) :
    '(' ∉ joined pieces :=
  not_mem_joined (by decide) fun p hp hmem => (h p hp _ hmem).2.1 rfl

theorem argument?_some {reversed : List Char} (h : trimChars reversed.reverse ≠ []) :
    argument? reversed = some (argumentOf reversed.reverse) := by
  unfold argument? argumentOf
  split
  · contradiction
  · rfl

theorem argument?_eq_some {reversed : List Char} {a : String} (h : argument? reversed = some a) :
    trimChars reversed.reverse ≠ [] ∧ a = argumentOf reversed.reverse := by
  unfold argument? at h
  split at h
  · cases h
  · rename_i hne
    exact ⟨hne, (Option.some.inj h).symm⟩

theorem arguments_piece {piece : List Char} (h : IsPiece piece) (reversed rest : List Char) :
    arguments reversed (piece ++ rest) = arguments (piece.reverse ++ reversed) rest := by
  induction piece generalizing reversed with
  | nil => rfl
  | cons c piece ih =>
      obtain ⟨hcomma, hopen, hclose, hbar⟩ := h c List.mem_cons_self
      have ih := ih (fun d hd => h d (List.mem_cons_of_mem c hd)) (c :: reversed)
      simp [arguments, hcomma, hopen, hclose, hbar, ih]

/-- Arguments are read up to the parenthesis, whatever follows. -/
theorem arguments_found {pieces : List (List Char)} (hne : pieces ≠ [])
    (h : ∀ p ∈ pieces, IsPiece p ∧ trimChars p ≠ []) :
    arguments [] (joined pieces ++ ')' :: rest) = .found (pieces.map argumentOf) rest := by
  induction pieces with
  | nil => exact absurd rfl hne
  | cons p ps ih =>
      obtain ⟨hp, htrim⟩ := h p List.mem_cons_self
      have harg : argument? p.reverse = some (argumentOf p) := by
        rw [argument?_some (by simpa using htrim), List.reverse_reverse]
      cases ps with
      | nil => simp [joined_singleton, arguments_piece hp, arguments, harg]
      | cons q ps =>
          have ih := ih (by simp) fun r hr => h r (List.mem_cons_of_mem p hr)
          rw [joined_cons_cons, List.append_assoc, arguments_piece hp]
          simp [arguments, harg, ih]

/-- Arguments that are read stand in the text as pieces between commas. -/
theorem arguments_eq_found {reversed input : List Char} {args : List String}
    (h : arguments reversed input = .found args rest) :
    ∃ p ps, input = joined (p :: ps) ++ ')' :: rest ∧ IsPiece p ∧
      trimChars (reversed.reverse ++ p) ≠ [] ∧ (∀ q ∈ ps, IsPiece q ∧ trimChars q ≠ []) ∧
      args = argumentOf (reversed.reverse ++ p) :: ps.map argumentOf := by
  induction input generalizing reversed args with
  | nil => cases h
  | cons c input ih =>
      simp only [arguments] at h
      split at h
      · rename_i hclose
        split at h
        · rename_i last hlast
          obtain ⟨hne, rfl⟩ := argument?_eq_some hlast
          obtain ⟨rfl, rfl⟩ := Scan.found.inj h
          refine ⟨[], [], ?_, ?_, ?_, ?_, ?_⟩
          · simp [joined, hclose]
          · simp [IsPiece]
          · simpa using hne
          · simp
          · simp
        · cases h
      · rename_i hclose
        split at h
        · rename_i hcomma
          split at h
          · rename_i first others left hfirst hothers
            obtain ⟨hne, rfl⟩ := argument?_eq_some hfirst
            obtain ⟨rfl, rfl⟩ := Scan.found.inj h
            obtain ⟨q, qs, rfl, hq, hqne, hqs, rfl⟩ := ih hothers
            refine ⟨[], q :: qs, ?_, ?_, ?_, ?_, ?_⟩
            · simp [joined_cons_cons, hcomma]
            · simp [IsPiece]
            · simpa using hne
            · rw [List.forall_mem_cons]
              exact ⟨⟨hq, hqne⟩, hqs⟩
            · simp
          · cases h
        · rename_i hcomma
          split at h
          · cases h
          · rename_i hother
            push Not at hother
            obtain ⟨p, ps, rfl, hp, hpne, hps, rfl⟩ := ih h
            refine ⟨c :: p, ps, ?_, ?_, ?_, hps, ?_⟩
            · rw [joined_cons_char]
              rfl
            · rw [IsPiece, List.forall_mem_cons]
              exact ⟨⟨hcomma, hother.1, hclose, hother.2⟩, hp⟩
            · simpa using hpne
            · simp

end LinkDiscovery.Grammar
