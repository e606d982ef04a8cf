import ComponentGlue.Input
import ComponentGlue.Proofs.Text

set_option autoImplicit false
set_option relaxedAutoImplicit false

namespace ComponentGlue

theorem parseInput_eq_ok_iff {α : Type} {read : String → Option Document} {decode : Decode α}
    {check : String → α → Except InputError Unit} {source : String} {a : α} :
    parseInput read decode check source = .ok a ↔
      (read source).bind decode = some a ∧ check source a = .ok () := by
  unfold parseInput
  cases (read source).bind decode with
  | none => simp
  | some b =>
    rw [Option.some.injEq]
    dsimp only
    constructor
    · intro h
      rcases hcheck : check source b with e | ⟨⟩
      · rw [hcheck] at h
        cases h
      · rw [hcheck] at h
        obtain rfl := Except.ok.inj h
        exact ⟨rfl, hcheck⟩
    · rintro ⟨rfl, hcheck⟩
      rw [hcheck]
      rfl

theorem continuesIdentifier_of_mem {s : List Char} (h : isIdentifierChars s = true) {c : Char}
    (hc : c ∈ s) : continuesIdentifier c = true := by
  cases s with
  | nil => cases hc
  | cons d s =>
    rw [isIdentifierChars, Bool.and_eq_true, List.all_eq_true] at h
    rcases List.mem_cons.1 hc with rfl | hc
    · have hstart := h.1
      simp only [startsIdentifier, continuesIdentifier, Char.isAlphanum, Bool.or_eq_true] at hstart ⊢
      tauto
    · exact h.2 c hc

theorem dot_notMem_of_isIdentifier {s : String} (h : isIdentifier s = true) : '.' ∉ s.toList :=
  fun hc => absurd (continuesIdentifier_of_mem h hc) (by decide)

theorem hash_notMem_of_isIdentifier {s : String} (h : isIdentifier s = true) : '#' ∉ s.toList :=
  fun hc => absurd (continuesIdentifier_of_mem h hc) (by decide)

theorem hash_notMem_of_isQualifiedName {s : String} (h : isQualifiedName s = true) :
    '#' ∉ s.toList := by
  intro hc
  obtain ⟨piece, hpiece, hmem⟩ := Text.exists_mem_splitAll hc (by decide : '#' ≠ '.')
  exact absurd (continuesIdentifier_of_mem (List.all_eq_true.1 h piece hpiece) hmem) (by decide)

section LastSegment

variable {front name : String} (hname : '.' ∉ name.toList)
include hname

theorem reverse_dotted (front : String) : (front ++ "." ++ name).toList.reverse =
      name.toList.reverse ++ '.' :: front.toList.reverse ∧
    ∀ c ∈ name.toList.reverse, decide (c ≠ '.') = true := by
  constructor
  · simp
  · intro c hc
    refine decide_eq_true fun hdot => hname ?_
    exact List.mem_reverse.1 (hdot ▸ hc)

theorem simpleName_dotted : simpleName (front ++ "." ++ name) = name := by
  obtain ⟨hchars, hfree⟩ := reverse_dotted hname front
  rw [simpleName, hchars, List.takeWhile_append_of_pos hfree, List.takeWhile_cons_of_neg (by simp)]
  simp

theorem packageOf_dotted : packageOf (front ++ "." ++ name) = front := by
  obtain ⟨hchars, hfree⟩ := reverse_dotted hname front
  rw [packageOf, hchars, List.dropWhile_append_of_pos hfree, List.dropWhile_cons_of_neg (by simp)]
  simp

end LastSegment

def ownerPart? (qualified : String) : Option String :=
  (Text.splitAtChar? '#' qualified.toList).map fun parts => String.ofList parts.1

namespace Element

def nameParts (e : Element) : Bool × String × String := (e.kind.isType, e.owner, e.name)

theorem qualifiedName_of_nameParts_eq {e e' : Element} (h : e.nameParts = e'.nameParts) :
    e.qualifiedName = e'.qualifiedName := by
  simp only [nameParts, Prod.mk.injEq] at h
  obtain ⟨htype, howner, hname⟩ := h
  rw [qualifiedName, qualifiedName, htype, howner, hname]

section Member

variable {e e' : Element} (hmember : e.kind.isType = false)
include hmember

theorem qualifiedName_of_member : e.qualifiedName = e.owner ++ "#" ++ e.name := by
  rw [qualifiedName, hmember]
  rfl

theorem toList_qualifiedName_of_member :
    e.qualifiedName.toList = e.owner.toList ++ '#' :: e.name.toList := by
  simp [qualifiedName_of_member hmember]

theorem eq_of_member_of_qualifiedName_eq (hmember' : e'.kind.isType = false)
    (howner : '#' ∉ e.owner.toList) (hname : '#' ∉ e.name.toList)
    (heq : e.qualifiedName = e'.qualifiedName) : e.owner = e'.owner ∧ e.name = e'.name := by
  have hchars := congrArg String.toList heq
  rw [toList_qualifiedName_of_member hmember, toList_qualifiedName_of_member hmember',
    List.append_cons_inj_of_notMem howner hname] at hchars
  exact ⟨String.toList_inj.1 hchars.1, String.toList_inj.1 hchars.2.2⟩

end Member

/-- The name is an identifier, and the owner is named as one. -/
structure WellNamed (e : Element) : Prop where
  name : isIdentifier e.name = true
  owner : DeclarationFile.ownerFits e = true

namespace WellNamed

variable {e e' : Element}

theorem isQualifiedName_owner (h : e.WellNamed) :
    (e.kind.isType = true ∧ e.owner = "") ∨ isQualifiedName e.owner = true := by
  have howner := h.owner
  rw [DeclarationFile.ownerFits, Bool.or_eq_true, Bool.and_eq_true, String.isEmpty_iff] at howner
  exact howner

theorem hash_notMem_owner (h : e.WellNamed) : '#' ∉ e.owner.toList := by
  rcases h.isQualifiedName_owner with ⟨-, hempty⟩ | hqualified
  · rw [hempty]
    exact List.not_mem_nil
  · exact hash_notMem_of_isQualifiedName hqualified

theorem hash_mem_qualifiedName_iff (h : e.WellNamed) :
    '#' ∈ e.qualifiedName.toList ↔ e.kind.isType = false := by
  have hname := hash_notMem_of_isIdentifier h.name
  have howner := h.hash_notMem_owner
  rw [qualifiedName]
  cases e.kind.isType with
  | false => simp
  | true =>
    rw [if_pos rfl]
    split
    · simp [hname]
    · simp [hname, howner]

theorem isType_eq_of_qualifiedName_eq (h : e.WellNamed) (h' : e'.WellNamed)
    (heq : e.qualifiedName = e'.qualifiedName) : e.kind.isType = e'.kind.isType := by
  have hiff := h.hash_mem_qualifiedName_iff
  rw [heq, h'.hash_mem_qualifiedName_iff] at hiff
  exact Bool.eq_iff_iff.2 (by simpa using not_congr hiff.symm)

theorem eq_of_qualifiedName_eq (h : e.WellNamed) (h' : e'.WellNamed)
    (heq : e.qualifiedName = e'.qualifiedName) : e.owner = e'.owner ∧ e.name = e'.name := by
  have hsame : e.kind.isType = e'.kind.isType := h.isType_eq_of_qualifiedName_eq h' heq
  cases htype : e.kind.isType with
  | false =>
    exact eq_of_member_of_qualifiedName_eq htype (hsame.symm.trans htype) h.hash_notMem_owner
      (hash_notMem_of_isIdentifier h.name) heq
  | true =>
    rw [qualifiedName, qualifiedName, ← hsame, htype, if_pos rfl, if_pos rfl] at heq
    have hdot := dot_notMem_of_isIdentifier h.name
    have hdot' := dot_notMem_of_isIdentifier h'.name
    split at heq <;> split at heq
    · next hempty hempty' =>
      rw [String.isEmpty_iff] at hempty hempty'
      exact ⟨hempty.trans hempty'.symm, heq⟩
    · rw [heq] at hdot
      simp at hdot
    · rw [← heq] at hdot'
      simp at hdot'
    · have howner := congrArg packageOf heq
      have hname := congrArg simpleName heq
      rw [packageOf_dotted hdot, packageOf_dotted hdot'] at howner
      rw [simpleName_dotted hdot, simpleName_dotted hdot'] at hname
      exact ⟨howner, hname⟩

theorem qualifiedName_eq_iff (h : e.WellNamed) (h' : e'.WellNamed) :
    e.qualifiedName = e'.qualifiedName ↔ e.nameParts = e'.nameParts := by
  refine ⟨fun heq => ?_, qualifiedName_of_nameParts_eq⟩
  obtain ⟨howner, hname⟩ := h.eq_of_qualifiedName_eq h' heq
  rw [nameParts, nameParts, h.isType_eq_of_qualifiedName_eq h' heq, howner, hname]

theorem enclosingType?_eq_ownerPart? (h : e.WellNamed) :
    e.enclosingType? = ownerPart? e.qualifiedName := by
  cases htype : e.kind.isType with
  | true =>
    have hfree : '#' ∉ e.qualifiedName.toList := by simp [h.hash_mem_qualifiedName_iff, htype]
    rw [ownerPart?, Text.splitAtChar?_of_notMem hfree, enclosingType?, htype]
    rfl
  | false =>
    have hnonempty : e.owner.isEmpty = false := by
      rcases h.isQualifiedName_owner with ⟨htype', -⟩ | howner
      · cases htype.symm.trans htype'
      · exact Bool.eq_false_iff.2 fun hempty =>
          absurd (String.isEmpty_iff.1 hempty ▸ howner) (by decide)
    rw [ownerPart?, toList_qualifiedName_of_member htype,
      Text.splitAtChar?_append h.hash_notMem_owner, enclosingType?, htype, hnonempty]
    simp

end WellNamed

end Element

namespace DeclarationFile

theorem checkEntry_eq_ok_iff {source : String} {d : Declaration} :
    checkEntry source d = .ok () ↔ d.marker.name.isEmpty = false ∧ d.element.WellNamed := by
  unfold checkEntry
  dsimp only
  constructor
  · intro h
    split at h
    · cases h
    next hmarker =>
    split at h
    · cases h
    next hname =>
    split at h
    · cases h
    next howner =>
    exact ⟨by simpa using hmarker, by simpa using hname, by simpa using howner⟩
  · rintro ⟨hmarker, hname, howner⟩
    rw [hmarker, hname, howner]
    rfl

theorem wellNamed_of_checkEntry {source : String} {d : Declaration}
    (h : checkEntry source d = .ok ()) : d.element.WellNamed :=
  (checkEntry_eq_ok_iff.1 h).2

theorem wellNamed_of_parse {read : String → Option Document} {source : String}
    {file : DeclarationFile} (h : parseWith read source = .ok file) (marker : Marker) :
    ∀ r ∈ file.declarationsFor marker, r.element.WellNamed := by
  have hchecks : ∀ ds : List Declaration, ds.forM (checkEntry source) = .ok () →
      ∀ d ∈ ds, d.element.WellNamed := by
    intro ds
    induction ds with
    | nil => exact fun _ _ hd => absurd hd List.not_mem_nil
    | cons d ds ih =>
      intro hds
      change (do checkEntry source d; ds.forM (checkEntry source)) = .ok () at hds
      rcases hd : checkEntry source d with e | ⟨⟩
      · rw [hd] at hds
        cases hds
      · rw [hd] at hds
        exact List.forall_mem_cons.2 ⟨wellNamed_of_checkEntry hd, ih hds⟩
  intro r hr
  obtain ⟨d, hd, rfl⟩ := List.mem_map.1 hr
  exact hchecks file.entries (parseInput_eq_ok_iff.1 h).2 d (List.mem_of_mem_filter hd)

/-- Elements that pass the checks of a declaration file have the same qualified name only if they are both
types or both members, of one owner and with one name. The enclosing type of a member is the type that is
named before the number sign of its qualified name. -/
theorem qualifiedName_eq_iff_of_checkEntry {source source' : String} {d d' : Declaration}
    (h : checkEntry source d = .ok ()) (h' : checkEntry source' d' = .ok ()) :
    (d.element.qualifiedName = d'.element.qualifiedName ↔
      d.element.kind.isType = d'.element.kind.isType ∧ d.element.owner = d'.element.owner ∧
        d.element.name = d'.element.name) ∧
    (d.element.kind.isType = false → d'.element.kind.isType = true →
      (d.element.enclosingType? = some d'.element.qualifiedName ↔
        ownerPart? d.element.qualifiedName = some d'.element.qualifiedName)) := by
  have hnamed := wellNamed_of_checkEntry h
  constructor
  · rw [hnamed.qualifiedName_eq_iff (wellNamed_of_checkEntry h'), Element.nameParts,
      Element.nameParts, Prod.mk.injEq, Prod.mk.injEq]
  · intro _ _
    rw [hnamed.enclosingType?_eq_ownerPart?]

private def titleField : Declaration :=
  ⟨⟨"binds-view"⟩, ⟨.field, "title", "a.Main", some "View", [], [], [], [], []⟩, .empty⟩

private def mainClass : Declaration :=
  ⟨⟨"enhanced-component"⟩, ⟨.classType, "Main", "a", none, [], [], [], [], []⟩, .empty⟩

theorem qualifiedName_eq_iff_of_checkEntry_title :
    checkEntry "" titleField = .ok () ∧ checkEntry "" mainClass = .ok () ∧
    titleField.element.qualifiedName ≠ mainClass.element.qualifiedName ∧
    titleField.element.enclosingType? = some mainClass.element.qualifiedName ∧
    ownerPart? titleField.element.qualifiedName = some mainClass.element.qualifiedName := by
  have hfield : checkEntry "" titleField = .ok () :=
    checkEntry_eq_ok_iff.2 ⟨by decide, by decide, by decide⟩
  have hclass : checkEntry "" mainClass = .ok () :=
    checkEntry_eq_ok_iff.2 ⟨by decide, by decide, by decide⟩
  obtain ⟨hnames, howner⟩ := qualifiedName_eq_iff_of_checkEntry hfield hclass
  have henclosed : titleField.element.enclosingType? = some mainClass.element.qualifiedName := by
    decide
  refine ⟨hfield, hclass, fun heq => ?_, henclosed, (howner rfl rfl).1 henclosed⟩
  cases (hnames.1 heq).1

end DeclarationFile

namespace SourceSpan

open Text (OccursAt)

def quoted (quote : Char) (value : String) : String :=
  String.singleton quote ++ value ++ String.singleton quote

theorem quoted_ne_empty (quote : Char) (value : String) : quoted quote value ≠ "" := by
  intro hempty
  have hchars := congrArg String.toList hempty
  simp [quoted] at hchars

theorem toList_quoted (quote : Char) (value : String) :
    (quoted quote value).toList = quote :: value.toList ++ [quote] := by
  simp [quoted]

variable {quote : Char} {source value : String} {span : SourceSpan}

theorem within?_eq_none_iff :
    within? quote source value = none ↔ ∀ offset, ¬ OccursAt (quoted quote value) source offset := by
  rw [within?, Option.map_eq_none_iff, ← toList_quoted,
    Text.splitAtFirst?_toList_eq_none_iff (quoted_ne_empty quote value)]

theorem exists_isLeast_of_within? (h : within? quote source value = some span) :
    ∃ offset, IsLeast {o | OccursAt (quoted quote value) source o} offset ∧
      span = ⟨offset + 1, value.utf8ByteSize⟩ := by
  rw [within?, ← toList_quoted, Option.map_eq_some_iff] at h
  obtain ⟨⟨before, rest⟩, hsplit, rfl⟩ := h
  exact ⟨_, Text.isLeast_of_splitAtFirst? (quoted_ne_empty quote value) hsplit, rfl⟩

theorem within?_eq_some_iff :
    within? quote source value = some span ↔
      ∃ offset, IsLeast {o | OccursAt (quoted quote value) source o} offset ∧
        span = ⟨offset + 1, value.utf8ByteSize⟩ := by
  constructor
  · exact exists_isLeast_of_within?
  · rintro ⟨offset, hleast, rfl⟩
    cases hwithin : within? quote source value with
    | none => exact absurd hleast.1 (within?_eq_none_iff.1 hwithin offset)
    | some found =>
      obtain ⟨offset', hleast', rfl⟩ := exists_isLeast_of_within? hwithin
      rw [hleast'.unique hleast]

theorem occursAt_quoted_iff (hquote : quote.utf8Size = 1) {offset : Nat} :
    OccursAt (quoted quote value) source offset ↔
      source.toByteArray[offset]? = some quote.toUInt8 ∧ OccursAt value source (offset + 1) ∧
        source.toByteArray[offset + 1 + value.utf8ByteSize]? = some quote.toUInt8 := by
  rw [quoted, Text.occursAt_append_iff, Text.occursAt_append_iff, String.utf8ByteSize_append,
    String.utf8ByteSize_singleton, hquote, Text.occursAt_singleton_iff hquote,
    Text.occursAt_singleton_iff hquote, ← Nat.add_assoc, and_assoc]

/-- The span lies in the source with both ends between characters, and covers the value. It stands between
two quotes of this kind, and nothing before it does so. -/
structure Covers (span : SourceSpan) (quote : Char) (value source : String) : Prop where
  inside : span.offset + span.length ≤ source.utf8ByteSize
  starts : (⟨span.offset⟩ : String.Pos.Raw).IsValid source
  ends : (⟨span.offset + span.length⟩ : String.Pos.Raw).IsValid source
  bytes_eq : source.toByteArray.extract span.offset (span.offset + span.length) = value.toByteArray
  opened : 0 < span.offset ∧ source.toByteArray[span.offset - 1]? = some quote.toUInt8
  closed : source.toByteArray[span.offset + span.length]? = some quote.toUInt8
  first : ∀ offset, OccursAt (quoted quote value) source offset → span.offset ≤ offset + 1

theorem Covers.length_eq (h : span.Covers quote value source) :
    span.length = value.utf8ByteSize := by
  have hsize := congrArg ByteArray.size h.bytes_eq
  have hinside := h.inside
  rw [ByteArray.size_extract, String.size_toByteArray, String.size_toByteArray] at hsize
  omega

theorem covers_of_isLeast (hquote : quote.utf8Size = 1) {offset : Nat}
    (h : IsLeast {o | OccursAt (quoted quote value) source o} offset) :
    Covers ⟨offset + 1, value.utf8ByteSize⟩ quote value source := by
  obtain ⟨hopened, hvalue, hclosed⟩ := (occursAt_quoted_iff hquote).1 h.1
  -- The value may be empty, so the ends of the span are read off the quotes around it.
  have hsingleton : String.singleton quote ≠ "" := String.singleton_ne_empty
  have hopening := ((Text.occursAt_singleton_iff hquote).2 hopened).isValid hsingleton
  have hclosing := ((Text.occursAt_singleton_iff hquote).2 hclosed).isValid hsingleton
  exact {
    inside := hvalue.inside
    starts := by
      have hend := hopening.2
      rwa [String.utf8ByteSize_singleton, hquote] at hend
    ends := hclosing.1
    bytes_eq := hvalue.bytes_eq
    opened := ⟨Nat.succ_pos offset, hopened⟩
    closed := hclosed
    first := fun o ho => Nat.succ_le_succ (h.2 ho) }

theorem within?_eq_some_iff_covers (hquote : quote.utf8Size = 1) :
    within? quote source value = some span ↔ span.Covers quote value source := by
  rw [within?_eq_some_iff]
  constructor
  · rintro ⟨offset, hleast, rfl⟩
    exact covers_of_isLeast hquote hleast
  · intro h
    obtain ⟨hpos, hopened⟩ := h.opened
    have hoffset : span.offset - 1 + 1 = span.offset := Nat.sub_add_cancel hpos
    refine ⟨span.offset - 1, ⟨?_, ?_⟩, ?_⟩
    · refine (occursAt_quoted_iff hquote).2 ⟨hopened, ?_, ?_⟩
      · rw [hoffset]
        exact ⟨h.length_eq ▸ h.inside, h.length_eq ▸ h.bytes_eq⟩
      · rw [hoffset, ← h.length_eq]
        exact h.closed
    · intro offset hoccurs
      have hfirst := h.first offset hoccurs
      omega
    · rw [hoffset, ← h.length_eq]

theorem ofValue?_eq_some_iff :
    ofValue? source value = some span ↔ span.Covers '"' value source ∨
      (∀ offset, ¬ OccursAt (quoted '"' value) source offset) ∧ span.Covers '\'' value source := by
  have hdouble : ('"' : Char).utf8Size = 1 := by decide
  have hsingle : ('\'' : Char).utf8Size = 1 := by decide
  rw [ofValue?, Option.orElse_eq_some, within?_eq_none_iff, within?_eq_some_iff_covers hdouble,
    within?_eq_some_iff_covers hsingle]

/-- An error about a value points at its first occurrence between double quotes, or else at its first one
between single quotes, and it points nowhere only if there is neither. -/
theorem ofValue?_covers (source value : String) :
    (ofValue? source value = none ↔
      (∀ offset, ¬ OccursAt (quoted '"' value) source offset) ∧
        ∀ offset, ¬ OccursAt (quoted '\'' value) source offset) ∧
    (∀ span, ofValue? source value = some span ↔ span.Covers '"' value source ∨
      (∀ offset, ¬ OccursAt (quoted '"' value) source offset) ∧ span.Covers '\'' value source) ∧
    ∀ message context reason,
      (InputError.atValue source message value).span? = ofValue? source value ∧
      (InputError.badName source value context reason).span? = ofValue? source value := by
  refine ⟨?_, ?_, ?_⟩
  · rw [ofValue?, Option.orElse_eq_none, within?_eq_none_iff, within?_eq_none_iff]
  · intro span
    exact ofValue?_eq_some_iff
  · intro message context reason
    exact ⟨rfl, rfl⟩

example : ofValue? "a = 'é'\nb = \"é\"" "é" = some ⟨14, 2⟩ := by decide

end SourceSpan

end ComponentGlue
