import Mathlib.Data.List.Basic
import Mathlib.Data.List.DropRight
import Mathlib.Order.Bounds.Basic
import ComponentGlue.Text

set_option autoImplicit false
set_option relaxedAutoImplicit false

namespace ComponentGlue.Text

section Text

variable {sep : Char}

theorem splitAll_ne_nil (s : List Char) : splitAll sep s ≠ [] := by
  cases s with
  | nil => exact List.cons_ne_nil _ _
  | cons c s =>
    rw [splitAll]
    split
    · exact List.cons_ne_nil _ _
    · split <;> exact List.cons_ne_nil _ _

theorem splitAll_of_notMem {s : List Char} (h : sep ∉ s) : splitAll sep s = [s] := by
  induction s with
  | nil => rfl
  | cons c s ih =>
    obtain ⟨hc, hs⟩ := not_or.1 (List.mem_cons.not.1 h)
    rw [splitAll, if_neg (Ne.symm hc), ih hs]

theorem splitAll_append_cons (s t : List Char) :
    splitAll sep (s ++ sep :: t) = splitAll sep s ++ splitAll sep t := by
  induction s with
  | nil => simp [splitAll]
  | cons c s ih =>
    by_cases hc : c = sep
    · simp [splitAll, hc, ih]
    · obtain ⟨piece, pieces, hpieces⟩ : ∃ piece pieces, splitAll sep s = piece :: pieces :=
        List.exists_cons_of_ne_nil (splitAll_ne_nil s)
      rw [List.cons_append, splitAll, if_neg hc, ih, splitAll, if_neg hc, hpieces]
      rfl

theorem exists_mem_splitAll {c : Char} {s : List Char} (hc : c ∈ s) (hne : c ≠ sep) :
    ∃ piece ∈ splitAll sep s, c ∈ piece := by
  induction s with
  | nil => cases hc
  | cons d s ih =>
    rw [splitAll]
    split
    · next hd =>
      have hrest : c ∈ s := (List.mem_cons.1 hc).resolve_left fun h => hne (h.trans hd)
      obtain ⟨piece, hpiece, hmem⟩ := ih hrest
      exact ⟨piece, List.mem_cons_of_mem _ hpiece, hmem⟩
    · rcases hpieces : splitAll sep s with - | ⟨first, pieces⟩
      · rw [hpieces] at ih
        rcases List.mem_cons.1 hc with rfl | hc
        · exact ⟨[c], by simp, by simp⟩
        · obtain ⟨piece, hpiece, -⟩ := ih hc
          cases hpiece
      · rw [hpieces] at ih
        rcases List.mem_cons.1 hc with rfl | hc
        · exact ⟨c :: first, by simp, by simp⟩
        · obtain ⟨piece, hpiece, hmem⟩ := ih hc
          rcases List.mem_cons.1 hpiece with rfl | hpiece
          · exact ⟨d :: piece, List.mem_cons_self, List.mem_cons_of_mem d hmem⟩
          · exact ⟨piece, List.mem_cons_of_mem _ hpiece, hmem⟩

theorem exists_append_of_notMem {α : Type} {l l' front back : List α} {a : α}
    (h : l ++ l' = front ++ a :: back) (ha : a ∉ l) :
    ∃ between, front = l ++ between ∧ l' = between ++ a :: back := by
  rcases List.append_eq_append_iff.1 h with hcut | ⟨rest, rfl, hrest⟩
  · exact hcut
  · cases rest with
    | nil => exact ⟨[], by simp, hrest.symm⟩
    | cons b rest =>
      obtain ⟨rfl, -⟩ := List.cons.inj hrest
      exact absurd (List.mem_append_right front List.mem_cons_self) ha

theorem splitAtChar?_append {s : List Char} (h : sep ∉ s) (t : List Char) :
    splitAtChar? sep (s ++ sep :: t) = some (s, t) := by
  induction s with
  | nil => simp [splitAtChar?]
  | cons c s ih =>
    obtain ⟨hc, hs⟩ := not_or.1 (List.mem_cons.not.1 h)
    simp [splitAtChar?, Ne.symm hc, ih hs]

theorem splitAtChar?_of_notMem {s : List Char} (h : sep ∉ s) :
    splitAtChar? sep s = none := by
  induction s with
  | nil => rfl
  | cons c s ih =>
    obtain ⟨hc, hs⟩ := not_or.1 (List.mem_cons.not.1 h)
    simp [splitAtChar?, Ne.symm hc, ih hs]

theorem notMem_of_splitAtChar? {s before rest : List Char}
    (h : splitAtChar? sep s = some (before, rest)) : sep ∉ before := by
  induction s generalizing before with
  | nil => cases h
  | cons c s ih =>
    rw [splitAtChar?] at h
    split at h
    · cases h
      exact List.not_mem_nil
    · next hc =>
      obtain ⟨⟨b, r⟩, hr, hp⟩ := Option.map_eq_some_iff.1 h
      cases hp
      intro hmem
      rcases List.mem_cons.1 hmem with heq | hmem
      · exact hc heq.symm
      · exact ih hr hmem

theorem afterPrefix?_eq_none_iff {front s : List Char} :
    afterPrefix? front s = none ↔ ¬ front <+: s := by
  constructor
  · rintro hnone ⟨rest, hrest⟩
    have hsome : afterPrefix? front s = some rest := afterPrefix?_eq_some_iff.2 hrest.symm
    rw [hnone] at hsome
    cases hsome
  · intro hfront
    cases hafter : afterPrefix? front s with
    | none => rfl
    | some rest => exact absurd ⟨rest, (afterPrefix?_eq_some_iff.1 hafter).symm⟩ hfront

theorem splitAtFirst?_eq_none_iff {pattern s : List Char} :
    splitAtFirst? pattern s = none ↔ ¬ pattern <:+: s := by
  induction s with
  | nil =>
    rw [splitAtFirst?, Option.map_eq_none_iff, afterPrefix?_eq_none_iff, List.prefix_nil,
      List.infix_nil]
  | cons c s ih =>
    rw [splitAtFirst?, List.infix_cons_iff, not_or, ← ih, ← afterPrefix?_eq_none_iff]
    cases hhere : afterPrefix? pattern (c :: s) with
    | none => simp
    | some rest => simp

theorem prefix_of_splitAtFirst? {pattern s before rest front back : List Char}
    (h : splitAtFirst? pattern s = some (before, rest)) (hs : s = front ++ pattern ++ back) :
    before <+: front := by
  induction s generalizing before front with
  | nil =>
    simp only [splitAtFirst?, Option.map_eq_some_iff] at h
    obtain ⟨t, -, hp⟩ := h
    cases hp
    exact List.nil_prefix
  | cons c s ih =>
    rw [splitAtFirst?] at h
    split at h
    · cases h
      exact List.nil_prefix
    · next hnone =>
      obtain ⟨⟨b, r⟩, hr, hp⟩ := Option.map_eq_some_iff.1 h
      cases hp
      cases front with
      | nil => exact absurd ⟨back, hs.symm⟩ (afterPrefix?_eq_none_iff.1 hnone)
      | cons d front =>
        obtain ⟨rfl, hrest⟩ := List.cons.inj hs
        exact List.cons_prefix_cons.2 ⟨rfl, ih hr hrest⟩

end Text

/-- The text neither starts nor ends with a blank. -/
structure Trimmed (s : List Char) : Prop where
  front : ∀ c ∈ s.head?, isBlank c = false
  back : ∀ c ∈ s.getLast?, isBlank c = false

theorem trimmed_of_noBlank {s : List Char} (h : ∀ c ∈ s, isBlank c = false) : Trimmed s := by
  constructor
  · intro c hc
    exact h c (List.mem_of_mem_head? hc)
  · intro c hc
    exact h c (List.mem_of_mem_getLast? hc)

theorem Trimmed.append {s t : List Char} (hs : Trimmed s) (ht : Trimmed t) : Trimmed (s ++ t) := by
  constructor
  · intro c hc
    rw [List.head?_append] at hc
    cases hhead : s.head? with
    | none =>
      rw [hhead] at hc
      exact ht.front c hc
    | some d =>
      rw [hhead] at hc
      obtain rfl : d = c := Option.some.inj hc
      exact hs.front d hhead
  · intro c hc
    rw [List.getLast?_append] at hc
    cases hlast : t.getLast? with
    | none =>
      rw [hlast] at hc
      exact hs.back c hc
    | some d =>
      rw [hlast] at hc
      obtain rfl : d = c := Option.some.inj hc
      exact ht.back d hlast

theorem trimmed_enclosed {first last : Char} (hfirst : isBlank first = false)
    (hlast : isBlank last = false) (s : List Char) : Trimmed (first :: s ++ [last]) := by
  constructor
  · intro c hc
    obtain rfl : first = c := by simpa using hc
    exact hfirst
  · intro c hc
    rw [List.getLast?_concat] at hc
    obtain rfl : last = c := Option.some.inj hc
    exact hlast

theorem trimmed_trim (s : List Char) : Trimmed (trim s) := by
  have hback : trim s = (trimFront s).rdropWhile isBlank := rfl
  constructor
  · intro c hc
    -- What is dropped at the end leaves the first character as it is.
    have hprefix : trim s <+: trimFront s := hback ▸ List.rdropWhile_prefix isBlank _
    have hhead : c ∈ (trimFront s).head? := by
      obtain ⟨rest, hrest⟩ := hprefix
      rw [← hrest, List.head?_append, Option.mem_def.1 hc]
      rfl
    have hnot := List.head?_dropWhile_not isBlank s
    have hsome : (s.dropWhile isBlank).head? = some c := hhead
    rw [hsome] at hnot
    exact hnot
  · intro c hc
    rw [hback] at hc
    have hne : (trimFront s).rdropWhile isBlank ≠ [] := by
      intro hnil
      rw [hnil] at hc
      cases hc
    have hnot := List.rdropWhile_last_not isBlank (trimFront s) hne
    rw [List.getLast?_eq_getLast_of_ne_nil hne] at hc
    obtain rfl := Option.some.inj hc
    simpa using hnot

theorem Trimmed.trim_eq {s : List Char} (h : Trimmed s) : trim s = s := by
  have hfront : trimFront s = s := by
    cases s with
    | nil => rfl
    | cons c s =>
      have hc : isBlank c = false := h.front c rfl
      simp [trimFront, hc]
  have hback : s.rdropWhile isBlank = s := by
    rw [List.rdropWhile_eq_self_iff]
    intro hne
    have hlast := h.back (s.getLast hne) (List.getLast?_eq_getLast_of_ne_nil hne)
    simp [hlast]
  show (trimFront s).rdropWhile isBlank = s
  rw [hfront, hback]

def inked (s : List Char) : List Char := s.filter fun c => !isBlank c

theorem inked_cons_of_blank {c : Char} (h : isBlank c = true) (s : List Char) :
    inked (c :: s) = inked s := by
  simp [inked, h]

theorem inked_cons_of_not_blank {c : Char} (h : isBlank c = false) (s : List Char) :
    inked (c :: s) = c :: inked s := by
  simp [inked, h]

theorem exists_eq_append_trim (s : List Char) :
    ∃ front back, s = front ++ (trim s ++ back) ∧ (∀ c ∈ front, isBlank c = true) ∧
      ∀ c ∈ back, isBlank c = true := by
  have hcut (l : List Char) : l.takeWhile isBlank ++ trimFront l = l :=
    List.takeWhile_append_dropWhile
  have hfront : s = s.takeWhile isBlank ++ trimFront s := (hcut s).symm
  have hback : trimFront s = trim s ++ ((trimFront s).reverse.takeWhile isBlank).reverse := by
    rw [trim, trimBack, ← List.reverse_append, hcut, List.reverse_reverse]
  refine ⟨_, _, hfront.trans (congrArg _ hback), ?_, ?_⟩
  · intro c hc
    exact List.mem_takeWhile_imp hc
  · intro c hc
    exact List.mem_takeWhile_imp (List.mem_reverse.1 hc)

theorem mem_of_mem_trim {c : Char} {s : List Char} (h : c ∈ trim s) : c ∈ s := by
  obtain ⟨front, back, hs, -, -⟩ := exists_eq_append_trim s
  rw [hs]
  exact List.mem_append_right front (List.mem_append_left back h)

/-- The second text is the first one without some of its blanks, and with blanks of its own only
where it has one space after a comma. -/
inductive Respaced : List Char → List Char → Prop where
  | nil : Respaced [] []
  | keep (c : Char) {s t : List Char} : Respaced s t → Respaced (c :: s) (c :: t)
  | drop {c : Char} {s t : List Char} : isBlank c = true → Respaced s t → Respaced (c :: s) t
  | space {s t : List Char} : Respaced s t → Respaced (',' :: s) (',' :: ' ' :: t)

namespace Respaced

theorem refl (s : List Char) : Respaced s s := by
  induction s with
  | nil => exact .nil
  | cons c s ih => exact .keep c ih

variable {s t u v : List Char}

theorem append (hst : Respaced s t) (huv : Respaced u v) : Respaced (s ++ u) (t ++ v) := by
  induction hst with
  | nil => exact huv
  | keep c _ ih => exact .keep c ih
  | drop hc _ ih => exact .drop hc ih
  | space _ ih => exact .space ih

theorem of_blank (h : ∀ c ∈ s, isBlank c = true) : Respaced s [] := by
  induction s with
  | nil => exact .nil
  | cons c s ih =>
    exact .drop (h c List.mem_cons_self) (ih fun d hd => h d (List.mem_cons_of_mem c hd))

theorem of_trim (h : Respaced (trim s) t) : Respaced s t := by
  obtain ⟨front, back, hs, hfront, hback⟩ := exists_eq_append_trim s
  have hwhole := (of_blank hfront).append (h.append (of_blank hback))
  rwa [← hs, List.nil_append, List.append_nil] at hwhole

theorem inked_eq (h : Respaced s t) : inked t = inked s := by
  induction h with
  | nil => rfl
  | keep c _ ih =>
    cases hc : isBlank c with
    | false => rw [inked_cons_of_not_blank hc, inked_cons_of_not_blank hc, ih]
    | true => rw [inked_cons_of_blank hc, inked_cons_of_blank hc, ih]
  | drop hc _ ih => rw [inked_cons_of_blank hc, ih]
  | space _ ih =>
    have hcomma : isBlank ',' = false := by decide
    have hspace : isBlank ' ' = true := by decide
    rw [inked_cons_of_not_blank hcomma, inked_cons_of_not_blank hcomma, inked_cons_of_blank hspace,
      ih]

end Respaced

theorem respaced_trim (s : List Char) : Respaced s (trim s) := .of_trim (.refl (trim s))

theorem inked_trim (s : List Char) : inked (trim s) = inked s := (respaced_trim s).inked_eq

/-- The bytes of the pattern are those of the source from this offset on. -/
structure OccursAt (pattern source : String) (offset : Nat) : Prop where
  inside : offset + pattern.utf8ByteSize ≤ source.utf8ByteSize
  bytes_eq : source.toByteArray.extract offset (offset + pattern.utf8ByteSize) = pattern.toByteArray

variable {pattern source : String} {offset : Nat}

theorem occursAt_self (source : String) : OccursAt source source 0 := by
  constructor
  · rw [Nat.zero_add]
  · rw [Nat.zero_add, ← String.size_toByteArray, ByteArray.extract_zero_size]

theorem occursAt_append_iff {first second : String} :
    OccursAt (first ++ second) source offset ↔
      OccursAt first source offset ∧ OccursAt second source (offset + first.utf8ByteSize) := by
  have hcut : source.toByteArray.extract offset (offset + (first ++ second).utf8ByteSize) =
      source.toByteArray.extract offset (offset + first.utf8ByteSize) ++
        source.toByteArray.extract (offset + first.utf8ByteSize)
          (offset + first.utf8ByteSize + second.utf8ByteSize) := by
    rw [String.utf8ByteSize_append, ← Nat.add_assoc]
    exact ByteArray.extract_eq_extract_append_extract _ (Nat.le_add_right _ _) (Nat.le_add_right _ _)
  constructor
  · rintro ⟨hinside, hbytes⟩
    rw [String.utf8ByteSize_append] at hinside
    have hsize : (source.toByteArray.extract offset (offset + first.utf8ByteSize)).size =
        first.toByteArray.size := by
      rw [ByteArray.size_extract, String.size_toByteArray, String.size_toByteArray]
      omega
    rw [hcut, String.toByteArray_append,
      ByteArray.append_eq_append_iff_of_size_eq_left hsize] at hbytes
    exact ⟨⟨by omega, hbytes.1⟩, ⟨by omega, hbytes.2⟩⟩
  · rintro ⟨hfirst, hsecond⟩
    constructor
    · rw [String.utf8ByteSize_append, ← Nat.add_assoc]
      exact hsecond.inside
    · rw [hcut, hfirst.bytes_eq, hsecond.bytes_eq, String.toByteArray_append]

theorem occursAt_front (front back : String) : OccursAt front (front ++ back) 0 :=
  (occursAt_append_iff.1 (occursAt_self (front ++ back))).1

theorem occursAt_singleton_iff {c : Char} (hc : c.utf8Size = 1) :
    OccursAt (String.singleton c) source offset ↔
      source.toByteArray[offset]? = some c.toUInt8 := by
  have hbyte : (String.singleton c).toByteArray = [c.toUInt8].toByteArray := by
    rw [String.toByteArray_singleton, List.utf8Encode_singleton, String.utf8EncodeChar_eq_singleton hc]
    rfl
  rw [getElem?_eq_some_iff]
  constructor
  · rintro ⟨hinside, hbytes⟩
    rw [String.utf8ByteSize_singleton, hc] at hinside hbytes
    rw [ByteArray.extract_add_one (String.size_toByteArray ▸ hinside), hbyte,
      List.toByteArray_inj] at hbytes
    exact ⟨String.size_toByteArray ▸ hinside, List.singleton_inj.1 hbytes⟩
  · rintro ⟨hinside, hget⟩
    constructor
    · rw [String.utf8ByteSize_singleton, hc, ← String.size_toByteArray]
      exact hinside
    · rw [String.utf8ByteSize_singleton, hc, ByteArray.extract_add_one hinside, hget, hbyte]

theorem OccursAt.unique {first second : String} (hfirst : OccursAt first source offset)
    (hsecond : OccursAt second source offset) (hsize : first.utf8ByteSize = second.utf8ByteSize) :
    first = second := by
  rw [← String.toByteArray_inj, ← hfirst.bytes_eq, ← hsecond.bytes_eq, hsize]

theorem OccursAt.isValid (h : OccursAt pattern source offset) (hpattern : pattern ≠ "") :
    (⟨offset⟩ : String.Pos.Raw).IsValid source ∧
      (⟨offset + pattern.utf8ByteSize⟩ : String.Pos.Raw).IsValid source := by
  have hvalid : (source.toByteArray.extract offset (offset + pattern.utf8ByteSize)).IsValidUTF8 :=
    h.bytes_eq ▸ pattern.isValidUTF8
  have hsize : pattern.utf8ByteSize ≠ 0 := fun hzero =>
    hpattern (String.utf8ByteSize_eq_zero_iff.1 hzero)
  have hends := (String.Pos.Raw.isValidUTF8_extract_iff ⟨offset⟩ ⟨offset + pattern.utf8ByteSize⟩
    (String.Pos.Raw.le_iff.2 (Nat.le_add_right _ _)) (String.Pos.Raw.le_iff.2 h.inside)).1 hvalid
  refine hends.resolve_left fun hempty => hsize ?_
  have hoffset : offset = offset + pattern.utf8ByteSize := String.Pos.Raw.mk.inj hempty
  omega

theorem occursAt_iff_exists_append (hpattern : pattern ≠ "") :
    OccursAt pattern source offset ↔
      ∃ front back, source = front ++ pattern ++ back ∧ front.utf8ByteSize = offset := by
  constructor
  · intro h
    obtain ⟨hstart, hend⟩ := h.isValid hpattern
    obtain ⟨front, rest, hrest, hfront⟩ := String.Pos.Raw.isValid_iff_exists_append.1 hstart
    obtain ⟨upto, back, hback, hupto⟩ := String.Pos.Raw.isValid_iff_exists_append.1 hend
    obtain rfl : offset = front.utf8ByteSize := congrArg String.Pos.Raw.byteIdx hfront
    have hsize : front.utf8ByteSize + pattern.utf8ByteSize = upto.utf8ByteSize :=
      congrArg String.Pos.Raw.byteIdx hupto
    have hfirst : OccursAt front source 0 := hrest ▸ occursAt_front front rest
    have hupto' : OccursAt upto source 0 := hback ▸ occursAt_front upto back
    -- Two beginnings of the source that end at the same byte are the same.
    have hboth : OccursAt (front ++ pattern) source 0 :=
      occursAt_append_iff.2 ⟨hfirst, (Nat.zero_add _).symm ▸ h⟩
    have heq : front ++ pattern = upto :=
      hboth.unique hupto' (by rw [String.utf8ByteSize_append, hsize])
    exact ⟨front, back, heq ▸ hback, rfl⟩
  · rintro ⟨front, back, rfl, rfl⟩
    have hpart := (occursAt_append_iff.1 (occursAt_front (front ++ pattern) back)).2
    rwa [Nat.zero_add] at hpart

theorem splitAtFirst?_toList_eq_none_iff (hpattern : pattern ≠ "") :
    splitAtFirst? pattern.toList source.toList = none ↔
      ∀ offset, ¬ OccursAt pattern source offset := by
  rw [splitAtFirst?_eq_none_iff]
  constructor
  · intro hnone offset hoccurs
    obtain ⟨front, back, rfl, -⟩ := (occursAt_iff_exists_append hpattern).1 hoccurs
    refine hnone ⟨front.toList, back.toList, ?_⟩
    rw [String.toList_append, String.toList_append]
  · rintro hnone ⟨front, back, hsource⟩
    refine hnone (String.ofList front).utf8ByteSize
      ((occursAt_iff_exists_append hpattern).2 ⟨String.ofList front, String.ofList back, ?_, rfl⟩)
    rw [← String.toList_inj, ← hsource]
    simp

theorem isLeast_of_splitAtFirst? {before rest : List Char} (hpattern : pattern ≠ "")
    (h : splitAtFirst? pattern.toList source.toList = some (before, rest)) :
    IsLeast {offset | OccursAt pattern source offset} (String.ofList before).utf8ByteSize := by
  constructor
  · refine (occursAt_iff_exists_append hpattern).2 ⟨String.ofList before, String.ofList rest, ?_, rfl⟩
    rw [← String.toList_inj, eq_append_of_splitAtFirst? h]
    simp
  · intro offset hoccurs
    obtain ⟨front, back, rfl, rfl⟩ := (occursAt_iff_exists_append hpattern).1 hoccurs
    obtain ⟨between, hbetween⟩ : before <+: front.toList :=
      prefix_of_splitAtFirst? h (by rw [String.toList_append, String.toList_append])
    have hfront : front = String.ofList before ++ String.ofList between := by
      rw [← String.toList_inj, ← hbetween]
      simp
    rw [hfront, String.utf8ByteSize_append]
    exact Nat.le_add_right _ _

end ComponentGlue.Text
