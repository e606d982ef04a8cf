import Mathlib.Data.List.Forall2
import ComponentGlue.Code.TypeRef
import ComponentGlue.Proofs.Text

set_option autoImplicit false
set_option relaxedAutoImplicit false

namespace ComponentGlue.TypeRef

open Text (Respaced isBlank inked inked_cons_of_blank inked_cons_of_not_blank)

def depthAt (depth : Nat) (c : Char) : Nat :=
  if c = '<' then depth + 1 else if c = '>' then depth - 1 else depth

def depthAfter (depth : Nat) (s : List Char) : Nat := s.foldl depthAt depth

def Uncut : Nat → List Char → Prop
  | _, [] => True
  | depth, c :: s => ¬ (c = ',' ∧ depth = 0) ∧ Uncut (depthAt depth c) s

@[simp] theorem depthAfter_nil (depth : Nat) : depthAfter depth [] = depth := rfl

@[simp] theorem depthAfter_cons (depth : Nat) (c : Char) (s : List Char) :
    depthAfter depth (c :: s) = depthAfter (depthAt depth c) s := rfl

theorem depthAfter_append (depth : Nat) (s t : List Char) :
    depthAfter depth (s ++ t) = depthAfter (depthAfter depth s) t :=
  List.foldl_append

theorem uncut_append {depth : Nat} {s t : List Char} :
    Uncut depth (s ++ t) ↔ Uncut depth s ∧ Uncut (depthAfter depth s) t := by
  induction s generalizing depth with
  | nil => simp [Uncut]
  | cons c s ih => simp [Uncut, ih, and_assoc]

theorem depthAt_of_ne {depth : Nat} {c : Char} (hopen : c ≠ '<') (hclose : c ≠ '>') :
    depthAt depth c = depth := by
  simp [depthAt, hopen, hclose]

theorem depthAt_of_blank {depth : Nat} {c : Char} (h : isBlank c = true) :
    depthAt depth c = depth := by
  have hopen : c ≠ '<' := by
    rintro rfl
    exact absurd h (by decide)
  have hclose : c ≠ '>' := by
    rintro rfl
    exact absurd h (by decide)
  exact depthAt_of_ne hopen hclose

theorem depthAfter_inked (depth : Nat) (s : List Char) :
    depthAfter depth (inked s) = depthAfter depth s := by
  induction s generalizing depth with
  | nil => rfl
  | cons c s ih =>
    cases hc : isBlank c with
    | false => rw [inked_cons_of_not_blank hc, depthAfter_cons, depthAfter_cons, ih]
    | true => rw [inked_cons_of_blank hc, depthAfter_cons, depthAt_of_blank hc, ih]

theorem uncut_inked {depth : Nat} {s : List Char} : Uncut depth (inked s) ↔ Uncut depth s := by
  induction s generalizing depth with
  | nil => rfl
  | cons c s ih =>
    cases hc : isBlank c with
    | false => rw [inked_cons_of_not_blank hc, Uncut, Uncut, ih]
    | true =>
      have hcomma : ¬ (c = ',' ∧ depth = 0) := by
        rintro ⟨rfl, -⟩
        exact absurd hc (by decide)
      rw [inked_cons_of_blank hc, Uncut, depthAt_of_blank hc, ih]
      simp only [hcomma, not_false_eq_true, true_and]

theorem exists_splitArgs_eq_cons (depth : Nat) (s : List Char) :
    ∃ piece pieces, splitArgs depth s = piece :: pieces := by
  refine List.exists_cons_of_ne_nil ?_
  cases s with
  | nil => exact List.cons_ne_nil _ _
  | cons c s =>
    rw [splitArgs]
    split
    · exact List.cons_ne_nil _ _
    · dsimp only
      split <;> exact List.cons_ne_nil _ _

theorem splitArgs_comma (s : List Char) : splitArgs 0 (',' :: s) = [] :: splitArgs 0 s := by
  rw [splitArgs, if_pos ⟨rfl, rfl⟩]

theorem splitArgs_cons {depth : Nat} {c : Char} (h : ¬ (c = ',' ∧ depth = 0)) {s piece : List Char}
    {pieces : List (List Char)} (hs : splitArgs (depthAt depth c) s = piece :: pieces) :
    splitArgs depth (c :: s) = (c :: piece) :: pieces := by
  unfold depthAt at hs
  rw [splitArgs, if_neg h]
  simp only [hs]

theorem splitArgs_of_uncut {depth : Nat} {s : List Char} (h : Uncut depth s) :
    splitArgs depth s = [s] := by
  induction s generalizing depth with
  | nil => rfl
  | cons c s ih => exact splitArgs_cons h.1 (ih h.2)

theorem splitArgs_append_comma {depth : Nat} {piece : List Char} (huncut : Uncut depth piece)
    (hdepth : depthAfter depth piece = 0) (s : List Char) :
    splitArgs depth (piece ++ ',' :: s) = piece :: splitArgs 0 s := by
  induction piece generalizing depth with
  | nil =>
    obtain rfl : depth = 0 := hdepth
    exact splitArgs_comma s
  | cons c piece ih => exact splitArgs_cons huncut.1 (ih huncut.2 hdepth)

def joined (pieces : List (List Char)) : List Char := [','].intercalate pieces

@[simp] theorem joined_singleton (piece : List Char) : joined [piece] = piece := by
  simp [joined]

@[simp] theorem joined_cons_cons (piece next : List Char) (pieces : List (List Char)) :
    joined (piece :: next :: pieces) = piece ++ ',' :: joined (next :: pieces) := by
  simp [joined]

theorem joined_cons_piece (c : Char) (piece : List Char) (pieces : List (List Char)) :
    joined ((c :: piece) :: pieces) = c :: joined (piece :: pieces) := by
  cases pieces with
  | nil => simp
  | cons next pieces => simp

theorem respaced_joined {piece other : List Char} {pieces others : List (List Char)}
    (hfirst : Respaced piece other) (hrest : List.Forall₂ Respaced pieces others) :
    Respaced (joined (piece :: pieces)) (joined (other :: others.map (' ' :: ·))) := by
  induction hrest generalizing piece other with
  | nil =>
    rw [List.map_nil, joined_singleton, joined_singleton]
    exact hfirst
  | @cons next another pieces others hnext _ ih =>
    rw [List.map_cons, joined_cons_cons, joined_cons_cons, joined_cons_piece]
    exact hfirst.append (.space (ih hnext))

/-- Pieces that a list of arguments can be cut into, when `depth` brackets are open before it. -/
inductive Pieces : Nat → List (List Char) → Prop where
  | last {depth : Nat} {piece : List Char} : Uncut depth piece → Pieces depth [piece]
  | comma {depth : Nat} {piece : List Char} {pieces : List (List Char)} :
    Uncut depth piece → depthAfter depth piece = 0 → Pieces 0 pieces →
      Pieces depth (piece :: pieces)

namespace Pieces

theorem ne_nil {depth : Nat} {pieces : List (List Char)} (h : Pieces depth pieces) :
    pieces ≠ [] := by
  cases h with
  | last _ => exact List.cons_ne_nil _ _
  | comma _ _ _ => exact List.cons_ne_nil _ _

theorem cons {depth : Nat} {c : Char} (h : ¬ (c = ',' ∧ depth = 0)) {piece : List Char}
    {pieces : List (List Char)} (hpieces : Pieces (depthAt depth c) (piece :: pieces)) :
    Pieces depth ((c :: piece) :: pieces) := by
  cases hpieces with
  | last huncut => exact .last ⟨h, huncut⟩
  | comma huncut hdepth hrest => exact .comma ⟨h, huncut⟩ hdepth hrest

theorem splitArgs_joined {depth : Nat} {pieces : List (List Char)} (h : Pieces depth pieces) :
    splitArgs depth (joined pieces) = pieces := by
  induction h with
  | last huncut =>
    rw [joined_singleton]
    exact splitArgs_of_uncut huncut
  | @comma depth piece pieces huncut hdepth hrest ih =>
    obtain ⟨next, others, rfl⟩ := List.exists_cons_of_ne_nil hrest.ne_nil
    rw [joined_cons_cons, splitArgs_append_comma huncut hdepth, ih]

theorem map_inked_iff {depth : Nat} {pieces : List (List Char)} :
    Pieces depth (pieces.map inked) ↔ Pieces depth pieces := by
  induction pieces generalizing depth with
  | nil =>
    constructor
    · intro h
      exact absurd rfl h.ne_nil
    · intro h
      exact absurd rfl h.ne_nil
  | cons piece pieces ih =>
    rw [List.map_cons]
    constructor
    · intro h
      generalize hmap : pieces.map inked = inkedPieces at h
      cases h with
      | last huncut =>
        obtain rfl := List.map_eq_nil_iff.1 hmap
        exact .last (uncut_inked.1 huncut)
      | comma huncut hdepth hrest =>
        rw [depthAfter_inked] at hdepth
        exact .comma (uncut_inked.1 huncut) hdepth (ih.1 (hmap ▸ hrest))
    · intro h
      cases h with
      | last huncut => exact .last (uncut_inked.2 huncut)
      | comma huncut hdepth hrest =>
        exact .comma (uncut_inked.2 huncut) ((depthAfter_inked _ _).trans hdepth) (ih.2 hrest)

theorem of_inked_eq {depth : Nat} {pieces others : List (List Char)} (h : Pieces depth pieces)
    (heq : others.map inked = pieces.map inked) : Pieces depth others := by
  rw [← map_inked_iff] at h ⊢
  rwa [heq]

end Pieces

theorem pieces_splitArgs (depth : Nat) (s : List Char) : Pieces depth (splitArgs depth s) := by
  induction s generalizing depth with
  | nil => exact .last trivial
  | cons c s ih =>
    by_cases h : c = ',' ∧ depth = 0
    · obtain ⟨rfl, rfl⟩ := h
      rw [splitArgs_comma]
      exact .comma trivial rfl (ih 0)
    · obtain ⟨piece, pieces, hs⟩ := exists_splitArgs_eq_cons (depthAt depth c) s
      rw [splitArgs_cons h hs]
      exact .cons h (hs ▸ ih (depthAt depth c))

theorem joined_splitArgs (depth : Nat) (s : List Char) : joined (splitArgs depth s) = s := by
  induction s generalizing depth with
  | nil => rfl
  | cons c s ih =>
    by_cases h : c = ',' ∧ depth = 0
    · obtain ⟨rfl, rfl⟩ := h
      rw [splitArgs_comma]
      obtain ⟨piece, pieces, hs⟩ := exists_splitArgs_eq_cons 0 s
      rw [hs, joined_cons_cons, List.nil_append, ← hs, ih]
    · obtain ⟨piece, pieces, hs⟩ := exists_splitArgs_eq_cons (depthAt depth c) s
      have hjoined := ih (depthAt depth c)
      rw [hs] at hjoined
      rw [splitArgs_cons h hs, joined_cons_piece, hjoined]

/-- With `depth` brackets open before it, the text has no comma outside brackets and closes the
brackets it opens, and no others. -/
structure Level (depth : Nat) (s : List Char) : Prop where
  uncut : Uncut depth s
  after : depthAfter depth s = depth

theorem level_of_forall {depth : Nat} {s : List Char}
    (h : ∀ c ∈ s, c ≠ '<' ∧ c ≠ '>' ∧ (c = ',' → 0 < depth)) : Level depth s := by
  induction s with
  | nil => exact ⟨trivial, rfl⟩
  | cons c s ih =>
    obtain ⟨hopen, hclose, hcomma⟩ := h c List.mem_cons_self
    have hrest := ih fun d hd => h d (List.mem_cons_of_mem c hd)
    have hsame : depthAt depth c = depth := depthAt_of_ne hopen hclose
    have hc : ¬ (c = ',' ∧ depth = 0) := by
      rintro ⟨heq, hzero⟩
      have hpositive := hcomma heq
      omega
    constructor
    · rw [Uncut, hsame]
      exact ⟨hc, hrest.uncut⟩
    · rw [depthAfter_cons, hsame]
      exact hrest.after

namespace Level

variable {depth : Nat} {s t : List Char}

theorem append (hs : Level depth s) (ht : Level depth t) : Level depth (s ++ t) := by
  constructor
  · rw [uncut_append, hs.after]
    exact ⟨hs.uncut, ht.uncut⟩
  · rw [depthAfter_append, hs.after, ht.after]

theorem enclosed (h : Level (depth + 1) s) : Level depth ('<' :: s ++ ['>']) := by
  have hopen : depthAt depth '<' = depth + 1 := by simp [depthAt]
  have hclose : depthAt (depth + 1) '>' = depth := by simp [depthAt]
  constructor
  · rw [List.cons_append, Uncut, hopen, uncut_append, h.after]
    have hfirst : ¬ ('<' = ',' ∧ depth = 0) := by simp
    have hlast : ¬ ('>' = ',' ∧ depth + 1 = 0) := by simp
    exact ⟨hfirst, h.uncut, hlast, trivial⟩
  · rw [List.cons_append, depthAfter_cons, hopen, depthAfter_append, h.after, depthAfter_cons,
      hclose, depthAfter_nil]

theorem joined {pieces : List (List Char)} (h : ∀ piece ∈ pieces, Level (depth + 1) piece) :
    Level (depth + 1) (joined pieces) := by
  induction pieces with
  | nil => exact ⟨trivial, rfl⟩
  | cons piece pieces ih =>
    have hpiece := h piece List.mem_cons_self
    have hrest := ih fun p hp => h p (List.mem_cons_of_mem piece hp)
    cases pieces with
    | nil =>
      rw [joined_singleton]
      exact hpiece
    | cons next pieces =>
      have hcomma : Level (depth + 1) [','] := level_of_forall (by simp)
      rw [joined_cons_cons]
      exact hpiece.append (hcomma.append hrest)

end Level

theorem pieces_of_level {pieces : List (List Char)} (hne : pieces ≠ [])
    (h : ∀ piece ∈ pieces, Level 0 piece) : Pieces 0 pieces := by
  induction pieces with
  | nil => exact absurd rfl hne
  | cons piece pieces ih =>
    have hpiece := h piece List.mem_cons_self
    cases pieces with
    | nil => exact .last hpiece.uncut
    | cons next pieces =>
      have hrest := ih (List.cons_ne_nil _ _) fun p hp => h p (List.mem_cons_of_mem piece hp)
      exact .comma hpiece.uncut hpiece.after hrest

end ComponentGlue.TypeRef
