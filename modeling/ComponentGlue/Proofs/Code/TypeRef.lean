import ComponentGlue.Proofs.Code.TypeArguments
import ComponentGlue.Proofs.Text

/-!
Types and their written forms. Every text is read as a type in normal form, and a type is in normal
form exactly when reading its written form gives it back. Well-formed types are in normal form.
-/

set_option autoImplicit false
set_option relaxedAutoImplicit false

namespace ComponentGlue

open Text (Respaced Trimmed isBlank inked)

namespace TypeRef

def PlainName (name : String) : Prop :=
  ∀ c ∈ name.toList, isBlank c = false ∧ c ∉ ['<', '>', ',', '[', ']']

instance (name : String) : Decidable (PlainName name) :=
  List.decidableBAll _ name.toList

namespace PlainName

variable {name : String} (h : PlainName name)
include h

theorem trimmed : Trimmed name.toList :=
  Text.trimmed_of_noBlank fun c hc => (h c hc).1

theorem notMem {c : Char} (hc : c ∈ ['<', '>', ',', '[', ']']) : c ∉ name.toList :=
  fun hmem => (h c hmem).2 hc

theorem level (depth : Nat) : Level depth name.toList := by
  refine level_of_forall fun c hc => ⟨?_, ?_, ?_⟩
  · rintro rfl
    exact h.notMem (by decide) hc
  · rintro rfl
    exact h.notMem (by decide) hc
  · rintro rfl
    exact absurd hc (h.notMem (by decide))

end PlainName

end TypeRef

namespace Primitive

theorem keyword_of_ofKeyword? {s : String} {p : Primitive} (h : ofKeyword? s = some p) :
    p.keyword = s := by
  have hfound := List.find?_some h
  exact eq_of_beq hfound

theorem plainName_keyword (p : Primitive) : TypeRef.PlainName p.keyword := by
  cases p <;> decide

end Primitive

namespace TypeRef

def chars (t : TypeRef) : List Char := t.text.toList

/-- The written forms of arguments as they stand between commas: all but the first have a blank in
front. -/
def written : List TypeRef → List (List Char)
  | [] => []
  | t :: rest => t.chars :: rest.map fun u => ' ' :: u.chars

@[simp] theorem chars_primitive (p : Primitive) : (primitive p).chars = p.keyword.toList := by
  rw [chars, text]

@[simp] theorem chars_named (name : String) : (named name).chars = name.toList := by
  rw [chars, text]

@[simp] theorem chars_array (element : TypeRef) :
    (array element).chars = element.chars ++ ['[', ']'] := by
  rw [chars, text, String.toList_append, chars]
  rfl

theorem toList_textAll (args : List TypeRef) : (textAll args).toList = joined (written args) := by
  induction args with
  | nil => rw [textAll]; rfl
  | cons t rest ih =>
    cases rest with
    | nil => rw [textAll]; simp [written, chars]
    | cons u rest =>
      rw [textAll, String.toList_append, String.toList_append, ih]
      simp only [written, List.map_cons, joined_cons_cons]
      cases rest with
      | nil => simp [chars]
      | cons v rest => simp [chars]

@[simp] theorem chars_generic (base : String) (args : List TypeRef) :
    (generic base args).chars = base.toList ++ ('<' :: joined (written args) ++ ['>']) := by
  rw [chars, text, String.toList_append, String.toList_append, String.toList_append, toList_textAll]
  simp

theorem map_inked_written (args : List TypeRef) :
    (written args).map inked = args.map fun t => inked t.chars := by
  have hblank : isBlank ' ' = true := by decide
  cases args with
  | nil => rfl
  | cons t rest =>
    simp only [written, List.map_cons, List.map_map, Function.comp_def,
      Text.inked_cons_of_blank hblank]

theorem map_trim_written {args : List TypeRef} (h : ∀ t ∈ args, Trimmed t.chars) :
    (written args).map Text.trim = args.map chars := by
  cases args with
  | nil => rfl
  | cons t rest =>
    have hrest : ∀ u ∈ rest, Text.trim (' ' :: u.chars) = u.chars := by
      intro u hu
      have hfront : Text.trim (' ' :: u.chars) = Text.trim u.chars := by
        have hblank : isBlank ' ' = true := by decide
        simp [Text.trim, Text.trimFront, hblank]
      rw [hfront, (h u (List.mem_cons_of_mem t hu)).trim_eq]
    have hfirst := (h t List.mem_cons_self).trim_eq
    simp only [written, List.map_cons, List.map_map, Function.comp_def, hfirst, List.cons.injEq,
      true_and]
    exact List.map_congr_left hrest

theorem notMem_of_genericParts? {s base inside : List Char}
    (h : genericParts? s = some (base, inside)) : '<' ∉ base := by
  rw [genericParts?] at h
  split at h
  · cases h
  · next b rest hsplit =>
    obtain ⟨i, -, hpair⟩ := Option.map_eq_some_iff.1 h
    obtain ⟨rfl, -⟩ := Prod.mk.inj hpair
    exact Text.notMem_of_splitAtChar? hsplit

/-- Types that reading can give. -/
inductive Normal : TypeRef → Prop where
  | primitive (p : Primitive) : Normal (.primitive p)
  | named {name : String} : Trimmed name.toList →
    Text.beforeSuffix? ['[', ']'] name.toList = none → Primitive.ofKeyword? name = none →
    genericParts? name.toList = none → Normal (.named name)
  | generic {base : String} {args : List TypeRef} : Trimmed base.toList → '<' ∉ base.toList →
    Pieces 0 (args.map chars) → (∀ t ∈ args, Normal t) → Normal (.generic base args)
  | array {element : TypeRef} : Normal element → Normal (.array element)

theorem Normal.trimmed {t : TypeRef} (h : t.Normal) : Trimmed t.chars := by
  induction h with
  | primitive p =>
    rw [chars_primitive]
    exact p.plainName_keyword.trimmed
  | named htrimmed _ _ _ =>
    rw [chars_named]
    exact htrimmed
  | generic htrimmed _ _ _ _ =>
    rw [chars_generic]
    exact htrimmed.append (Text.trimmed_enclosed (by decide) (by decide) _)
  | array _ ih =>
    rw [chars_array]
    exact ih.append (Text.trimmed_enclosed (by decide) (by decide) [])

section Read

theorem ofChars_array {s element : List Char} (htrimmed : Trimmed s)
    (h : s = element ++ ['[', ']']) : ofChars s = .array (ofChars element) := by
  rw [ofChars_eq, htrimmed.trim_eq, Text.beforeSuffix?_eq_some_iff.2 h]

theorem beforeSuffix?_eq_none_of_notMem {s : List Char} (h : ']' ∉ s) :
    Text.beforeSuffix? ['[', ']'] s = none := by
  rw [Option.eq_none_iff_forall_ne_some]
  intro element hsome
  rw [Text.beforeSuffix?_eq_some_iff] at hsome
  exact h (hsome ▸ by simp)

theorem ofChars_keyword (p : Primitive) : ofChars p.keyword.toList = .primitive p := by
  have hsuffix : Text.beforeSuffix? ['[', ']'] p.keyword.toList = none :=
    beforeSuffix?_eq_none_of_notMem (p.plainName_keyword.notMem (by decide))
  rw [ofChars_eq, p.plainName_keyword.trimmed.trim_eq, hsuffix, String.ofList_toList,
    Primitive.ofKeyword?_keyword]

theorem ofChars_generic {base inside : List Char} (htrimmed : Trimmed base) (hbase : '<' ∉ base) :
    ofChars (base ++ ('<' :: inside ++ ['>'])) =
      .generic (String.ofList base)
        ((splitArgs 0 inside).map fun piece => ofChars (Text.trim piece)) := by
  have hwhole : Trimmed (base ++ ('<' :: inside ++ ['>'])) :=
    htrimmed.append (Text.trimmed_enclosed (by decide) (by decide) inside)
  have hsuffix : Text.beforeSuffix? ['[', ']'] (base ++ ('<' :: inside ++ ['>'])) = none := by
    rw [Option.eq_none_iff_forall_ne_some]
    intro element hsome
    have hends : (base ++ '<' :: inside) ++ ['>'] = (element ++ ['[']) ++ [']'] := by
      simpa using Text.beforeSuffix?_eq_some_iff.1 hsome
    cases List.append_inj_right' hends rfl
  have hkeyword :
      Primitive.ofKeyword? (String.ofList (base ++ ('<' :: inside ++ ['>']))) = none := by
    rw [Option.eq_none_iff_forall_ne_some]
    intro p hsome
    have hmem : '<' ∈ p.keyword.toList := by
      rw [Primitive.keyword_of_ofKeyword? hsome]
      simp
    exact p.plainName_keyword.notMem (by decide) hmem
  have hparts : genericParts? (base ++ ('<' :: inside ++ ['>'])) = some (base, inside) := by
    have hback : Text.beforeSuffix? ['>'] (inside ++ ['>']) = some inside :=
      Text.beforeSuffix?_eq_some_iff.2 rfl
    rw [genericParts?, List.cons_append, Text.splitAtChar?_append hbase]
    simp only [hback, Option.map_some]
  rw [ofChars_eq, hwhole.trim_eq, hsuffix]
  simp only [hkeyword, hparts, htrimmed.trim_eq]

end Read

/-- A type in normal form is read back. -/
theorem Normal.ofChars_chars {t : TypeRef} (h : t.Normal) : ofChars t.chars = t := by
  induction h with
  | primitive p =>
    rw [chars_primitive]
    exact ofChars_keyword p
  | @named name htrimmed hsuffix hkeyword hparts =>
    rw [chars_named, ofChars_eq, htrimmed.trim_eq, hsuffix, String.ofList_toList]
    simp only [hkeyword, hparts]
  | @generic base args htrimmed hbase hpieces hargs ih =>
    have hwritten : Pieces 0 (written args) := by
      refine hpieces.of_inked_eq ?_
      rw [map_inked_written, List.map_map]
      rfl
    have hread : (splitArgs 0 (joined (written args))).map
        (fun piece => ofChars (Text.trim piece)) = args := by
      calc (splitArgs 0 (joined (written args))).map (fun piece => ofChars (Text.trim piece))
          = ((written args).map Text.trim).map ofChars := by
            rw [hwritten.splitArgs_joined, List.map_map]
            rfl
        _ = args.map fun t => ofChars t.chars := by
            rw [map_trim_written fun t ht => (hargs t ht).trimmed, List.map_map]
            rfl
        _ = args := by
            rw [List.map_congr_left ih]
            exact List.map_id args
    rw [chars_generic, ofChars_generic htrimmed hbase, hread, String.ofList_toList]
  | @array element hnormal ih =>
    have hread := ofChars_array hnormal.array.trimmed (chars_array element)
    rw [hread, ih]

theorem respaced_joined_written (read : List Char → TypeRef) {pieces : List (List Char)}
    (hne : pieces ≠ []) (h : ∀ piece ∈ pieces, Respaced piece (read piece).chars) :
    Respaced (joined pieces) (joined (written (pieces.map read))) := by
  obtain ⟨piece, pieces, rfl⟩ := List.exists_cons_of_ne_nil hne
  have hrest : List.Forall₂ Respaced pieces (pieces.map fun other => (read other).chars) := by
    rw [List.forall₂_map_right_iff, List.forall₂_same]
    exact fun other hother => h other (List.mem_cons_of_mem piece hother)
  have hjoined := respaced_joined (h piece List.mem_cons_self) hrest
  rw [List.map_map] at hjoined
  rw [List.map_cons, written, List.map_map]
  exact hjoined

/-- Reading a text and writing the type changes nothing but the spacing. -/
theorem respaced_chars_ofChars (s : List Char) : Respaced s (ofChars s).chars := by
  induction s using ofChars.induct with
  | case1 s element hsuffix ih =>
    have hwhole : Respaced (Text.trim s) ((ofChars element).chars ++ ['[', ']']) := by
      rw [Text.beforeSuffix?_eq_some_iff.1 hsuffix]
      exact ih.append (.refl _)
    rw [ofChars_eq, hsuffix, chars_array]
    exact hwhole.of_trim
  | case2 s hsuffix p hkeyword =>
    rw [ofChars_eq, hsuffix, hkeyword, chars_primitive, Primitive.keyword_of_ofKeyword? hkeyword,
      String.toList_ofList]
    exact Text.respaced_trim s
  | case3 s hsuffix hkeyword base inside hparts ih =>
    have hargs : Respaced inside (joined (written ((splitArgs 0 inside).map
        fun piece => ofChars (Text.trim piece)))) := by
      have hjoined := respaced_joined_written (fun piece => ofChars (Text.trim piece))
        (pieces_splitArgs 0 inside).ne_nil fun piece hpiece => (ih ⟨piece, hpiece⟩).of_trim
      rwa [joined_splitArgs] at hjoined
    have hwhole := (Text.respaced_trim base).append (.keep '<' (hargs.append (.refl ['>'])))
    rw [ofChars_eq, hsuffix]
    simp only [hkeyword, hparts]
    rw [chars_generic, String.toList_ofList]
    refine .of_trim ?_
    rw [eq_of_genericParts? hparts, List.append_assoc]
    exact hwhole
  | case4 s hsuffix hkeyword hparts =>
    rw [ofChars_eq, hsuffix, hkeyword, hparts, chars_named, String.toList_ofList]
    exact Text.respaced_trim s

theorem inked_chars_ofChars (s : List Char) : inked (ofChars s).chars = inked s :=
  (respaced_chars_ofChars s).inked_eq

/-- Reading gives types in normal form. -/
theorem normal_ofChars (s : List Char) : (ofChars s).Normal := by
  induction s using ofChars.induct with
  | case1 s element hsuffix ih =>
    rw [ofChars_eq, hsuffix]
    exact .array ih
  | case2 s hsuffix p hkeyword =>
    rw [ofChars_eq, hsuffix, hkeyword]
    exact .primitive p
  | case3 s hsuffix hkeyword base inside hparts ih =>
    -- The arguments' written forms have the brackets and commas of the pieces they are read from.
    have hpieces : Pieces 0 (((splitArgs 0 inside).map fun piece =>
        ofChars (Text.trim piece)).map chars) := by
      refine (pieces_splitArgs 0 inside).of_inked_eq ?_
      rw [List.map_map, List.map_map]
      refine List.map_congr_left fun piece _ => ?_
      exact (inked_chars_ofChars (Text.trim piece)).trans (Text.inked_trim piece)
    have hbase : '<' ∉ Text.trim base := by
      intro hmem
      have hinside : '<' ∈ base := Text.mem_of_mem_trim hmem
      exact notMem_of_genericParts? hparts hinside
    rw [ofChars_eq, hsuffix]
    simp only [hkeyword, hparts]
    refine .generic ?_ ?_ hpieces ?_
    · rw [String.toList_ofList]
      exact Text.trimmed_trim base
    · rw [String.toList_ofList]
      exact hbase
    · intro t ht
      obtain ⟨piece, hpiece, rfl⟩ := List.mem_map.1 ht
      exact ih ⟨piece, hpiece⟩
  | case4 s hsuffix hkeyword hparts =>
    rw [ofChars_eq, hsuffix]
    simp only [hkeyword, hparts]
    refine .named ?_ ?_ hkeyword ?_
    · rw [String.toList_ofList]
      exact Text.trimmed_trim s
    · rw [String.toList_ofList]
      exact hsuffix
    · rw [String.toList_ofList]
      exact hparts

theorem parse_text_eq_iff {t : TypeRef} : parse t.text = t ↔ t.Normal := by
  constructor
  · intro h
    rw [← h]
    exact normal_ofChars t.chars
  · exact Normal.ofChars_chars

/-- Reading is done after one round. Writing the type that was read from a text and reading it again
gives the same type, and the two texts differ in blanks only. -/
theorem parse_text_parse (s : String) :
    parse (parse s).text = parse s ∧ inked (parse s).text.toList = inked s.toList :=
  ⟨parse_text_eq_iff.2 (normal_ofChars s.toList), inked_chars_ofChars s.toList⟩

/-- Reading and writing a text takes away nothing but blanks, and puts in nothing but a space after a
comma. -/
theorem respaced_text_parse (s : String) :
    inked (parse s).text.toList = inked s.toList ∧ Respaced s.toList (parse s).text.toList :=
  ⟨inked_chars_ofChars s.toList, respaced_chars_ofChars s.toList⟩

example : (parse " Map< K>,V ,W<> > ").text = "Map<K>, V, W<>>" := by decide +kernel

/-- Names and generic bases are plain, no name is a keyword, and generic types have arguments. -/
inductive WellFormed : TypeRef → Prop where
  | primitive (p : Primitive) : WellFormed (.primitive p)
  | named {name : String} : PlainName name → (∀ p : Primitive, name ≠ p.keyword) →
    WellFormed (.named name)
  | generic {base : String} {args : List TypeRef} : PlainName base → args ≠ [] →
    (∀ t ∈ args, WellFormed t) → WellFormed (.generic base args)
  | array {element : TypeRef} : WellFormed element → WellFormed (.array element)

namespace WellFormed

theorem level {t : TypeRef} (h : t.WellFormed) (depth : Nat) : Level depth t.chars := by
  induction h generalizing depth with
  | primitive p =>
    rw [chars_primitive]
    exact p.plainName_keyword.level depth
  | named hname _ =>
    rw [chars_named]
    exact hname.level depth
  | @generic base args hbase _ _ ih =>
    have hblank : Level (depth + 1) [' '] := level_of_forall (by simp)
    have hwritten : ∀ piece ∈ written args, Level (depth + 1) piece := by
      intro piece hpiece
      cases args with
      | nil => cases hpiece
      | cons t rest =>
        rcases List.mem_cons.1 hpiece with rfl | hpiece
        · exact ih t List.mem_cons_self (depth + 1)
        · obtain ⟨u, hu, rfl⟩ := List.mem_map.1 hpiece
          exact hblank.append (ih u (List.mem_cons_of_mem t hu) (depth + 1))
    rw [chars_generic]
    exact (hbase.level depth).append (Level.joined hwritten).enclosed
  | array _ ih =>
    rw [chars_array]
    exact (ih depth).append (level_of_forall (by simp))

theorem normal {t : TypeRef} (h : t.WellFormed) : t.Normal := by
  induction h with
  | primitive p => exact .primitive p
  | @named name hname hkeyword =>
    have hsuffix := beforeSuffix?_eq_none_of_notMem (hname.notMem (by decide))
    have hnone : Primitive.ofKeyword? name = none := by
      rw [Option.eq_none_iff_forall_ne_some]
      intro p hp
      exact hkeyword p (Primitive.keyword_of_ofKeyword? hp).symm
    have hparts : genericParts? name.toList = none := by
      rw [genericParts?, Text.splitAtChar?_of_notMem (hname.notMem (by decide))]
    exact .named hname.trimmed hsuffix hnone hparts
  | @generic base args hbase hne hargs ih =>
    have hpieces : Pieces 0 (args.map chars) := by
      refine pieces_of_level (by simpa using hne) fun piece hpiece => ?_
      obtain ⟨t, ht, rfl⟩ := List.mem_map.1 hpiece
      exact (hargs t ht).level 0
    exact .generic hbase.trimmed (hbase.notMem (by decide)) hpieces ih
  | array _ ih => exact .array ih

end WellFormed

/-- A well-formed type is what its written form is read as. -/
theorem parse_text_of_wellFormed {t : TypeRef} (h : t.WellFormed) : parse t.text = t :=
  parse_text_eq_iff.2 h.normal

private def listOfMaps : TypeRef :=
  .array (.generic "List" [.generic "Map" [.named "K", .array (.primitive .int)], .named "V"])

theorem parse_text_of_wellFormed_listOfMaps :
    listOfMaps.WellFormed ∧ listOfMaps.text = "List<Map<K, int[]>, V>[]" ∧
      parse "List<Map<K, int[]>, V>[]" = listOfMaps := by
  have hkey : (named "K").WellFormed := .named (by decide) fun p => by cases p <;> decide
  have hvalue : (named "V").WellFormed := .named (by decide) fun p => by cases p <;> decide
  have hmap : (generic "Map" [named "K", array (primitive .int)]).WellFormed := by
    refine .generic (by decide) (List.cons_ne_nil _ _) fun t ht => ?_
    rcases List.mem_pair.1 ht with rfl | rfl
    · exact hkey
    · exact .array (.primitive .int)
  have hlist : listOfMaps.WellFormed := by
    refine .array (.generic (by decide) (List.cons_ne_nil _ _) fun t ht => ?_)
    rcases List.mem_pair.1 ht with rfl | rfl
    · exact hmap
    · exact hvalue
  have htext : listOfMaps.text = "List<Map<K, int[]>, V>[]" := by decide +kernel
  exact ⟨hlist, htext, htext ▸ parse_text_of_wellFormed hlist⟩

end TypeRef

end ComponentGlue
