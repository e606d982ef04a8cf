import Mathlib.Data.List.Basic
import ComponentGlue.Marker
import ComponentGlue.Proofs.Text

/-!
Url templates and the placeholders in them. Every text can be cut in exactly one way into literal texts and
the names in braces between them, if each name is taken from the first opening brace on, up to the next
closing one; the placeholders of a url are these names.
-/

set_option autoImplicit false
set_option relaxedAutoImplicit false

namespace ComponentGlue

/-- A url template and the names between its braces, from left to right. Each name runs from an opening
brace to the next closing one. -/
inductive UrlTemplate : List Char → List (List Char) → Prop where
  | plain {text : List Char} (htext : '\x7b' ∉ text) : UrlTemplate text []
  | unclosed {text rest : List Char} (htext : '\x7b' ∉ text) (hrest : '\x7d' ∉ rest) :
      UrlTemplate (text ++ '\x7b' :: rest) []
  | named {text name rest : List Char} {names : List (List Char)} (htext : '\x7b' ∉ text)
      (hname : '\x7d' ∉ name) (hrest : UrlTemplate rest names) :
      UrlTemplate (text ++ '\x7b' :: (name ++ '\x7d' :: rest)) (name :: names)

namespace UrlTemplate

theorem scanPlaceholders_outside {text rest : List Char} (h : '\x7b' ∉ text) :
    scanPlaceholders .outside (text ++ rest) = scanPlaceholders .outside rest := by
  induction text with
  | nil => rfl
  | cons c text ih =>
    rw [List.mem_cons, not_or] at h
    rw [List.cons_append, scanPlaceholders, if_neg (Ne.symm h.1), ih h.2]

theorem scanPlaceholders_open (rest : List Char) :
    scanPlaceholders .outside ('\x7b' :: rest) = scanPlaceholders (.inside []) rest :=
  if_pos rfl

theorem scanPlaceholders_unclosed {read rest : List Char} (h : '\x7d' ∉ rest) :
    scanPlaceholders (.inside read) rest = [] := by
  induction rest generalizing read with
  | nil => rfl
  | cons c rest ih =>
    rw [List.mem_cons, not_or] at h
    rw [scanPlaceholders, if_neg (Ne.symm h.1), ih h.2]

theorem scanPlaceholders_closed {read name rest : List Char} (h : '\x7d' ∉ name) :
    scanPlaceholders (.inside read) (name ++ '\x7d' :: rest) =
      (read.reverse ++ name) :: scanPlaceholders .outside rest := by
  induction name generalizing read with
  | nil =>
    rw [List.append_nil]
    exact if_pos rfl
  | cons c name ih =>
    rw [List.mem_cons, not_or] at h
    rw [List.cons_append, scanPlaceholders, if_neg (Ne.symm h.1), ih h.2, List.reverse_cons,
      List.append_assoc, List.singleton_append]

theorem scanPlaceholders_eq {url : List Char} {names : List (List Char)} (h : UrlTemplate url names) :
    scanPlaceholders .outside url = names := by
  induction h with
  | @plain text htext =>
    rw [← List.append_nil text]
    exact scanPlaceholders_outside htext
  | unclosed htext hrest =>
    rw [scanPlaceholders_outside htext, scanPlaceholders_open, scanPlaceholders_unclosed hrest]
  | named htext hname _ ih =>
    rw [scanPlaceholders_outside htext, scanPlaceholders_open, scanPlaceholders_closed hname, ih]
    rfl

theorem exists_names (url : List Char) : ∃ names, UrlTemplate url names := by
  induction hlength : url.length using Nat.strongRecOn generalizing url with
  | _ n ih =>
    by_cases hopen : '\x7b' ∈ url
    · obtain ⟨text, rest, rfl, htext⟩ := List.eq_append_cons_of_mem hopen
      by_cases hclose : '\x7d' ∈ rest
      · obtain ⟨name, rest, rfl, hname⟩ := List.eq_append_cons_of_mem hclose
        have hshorter : rest.length < n := by
          simp only [List.length_append, List.length_cons] at hlength
          omega
        obtain ⟨names, hnames⟩ := ih _ hshorter rest rfl
        exact ⟨_, .named htext hname hnames⟩
      · exact ⟨_, .unclosed htext hclose⟩
    · exact ⟨_, .plain hopen⟩

end UrlTemplate

theorem urlTemplate_urlPlaceholders (url : String) :
    UrlTemplate url.toList ((urlPlaceholders url).map String.toList) := by
  obtain ⟨names, hnames⟩ := UrlTemplate.exists_names url.toList
  have hsame : (urlPlaceholders url).map String.toList = names := by
    rw [urlPlaceholders, hnames.scanPlaceholders_eq, List.map_map]
    exact (List.map_congr_left fun name _ => String.toList_ofList).trans (List.map_id _)
  exact hsame ▸ hnames

namespace UrlTemplate

def Unclosed (s : List Char) : Prop := ∀ front back, s = front ++ '\x7b' :: back → '\x7d' ∉ back

theorem unclosed_of_notMem {s : List Char} (h : '\x7b' ∉ s) : Unclosed s := by
  rintro front back rfl
  simp at h

theorem unclosed_append {text rest : List Char} (htext : '\x7b' ∉ text) (hrest : '\x7d' ∉ rest) :
    Unclosed (text ++ '\x7b' :: rest) := by
  intro front back hsplit hclose
  -- The opening brace comes no earlier than the first one.
  obtain ⟨between, -, hback⟩ := Text.exists_append_of_notMem hsplit htext
  have hmem : '\x7d' ∈ '\x7b' :: rest := by simp [hback, hclose]
  exact hrest ((List.mem_cons.1 hmem).resolve_left (by decide))

end UrlTemplate

open UrlTemplate (Unclosed)

/-- A literal text and the placeholder behind it. -/
@[ext]
structure UrlPiece where
  literal : String
  name : String
  literal_unopened : '\x7b' ∉ literal.toList
  name_unclosed : '\x7d' ∉ name.toList

namespace UrlPiece

def assemble (pieces : List UrlPiece) (last : String) : String :=
  pieces.foldr (fun p rest => p.literal ++ "\x7b" ++ p.name ++ "\x7d" ++ rest) last

variable {pieces pieces' : List UrlPiece} {last last' : String}

theorem toList_assemble_cons (p : UrlPiece) (pieces : List UrlPiece) (last : String) :
    (assemble (p :: pieces) last).toList =
      p.literal.toList ++ '\x7b' :: (p.name.toList ++ '\x7d' :: (assemble pieces last).toList) := by
  simp [assemble]

theorem not_unclosed_assemble_cons (p : UrlPiece) (pieces : List UrlPiece) (last : String) :
    ¬ Unclosed (assemble (p :: pieces) last).toList :=
  fun h => h _ _ (toList_assemble_cons p pieces last) (by simp)

theorem eq_of_assemble_cons_eq {p p' : UrlPiece}
    (h : assemble (p :: pieces) last = assemble (p' :: pieces') last') :
    p = p' ∧ assemble pieces last = assemble pieces' last' := by
  have hchars := congrArg String.toList h
  rw [toList_assemble_cons, toList_assemble_cons] at hchars
  have hopen := congrArg (Text.splitAtChar? '\x7b') hchars
  rw [Text.splitAtChar?_append p.literal_unopened, Text.splitAtChar?_append p'.literal_unopened] at hopen
  obtain ⟨hliteral, hbehind⟩ := Prod.mk.inj (Option.some.inj hopen)
  have hclose := congrArg (Text.splitAtChar? '\x7d') hbehind
  rw [Text.splitAtChar?_append p.name_unclosed, Text.splitAtChar?_append p'.name_unclosed] at hclose
  obtain ⟨hname, hrest⟩ := Prod.mk.inj (Option.some.inj hclose)
  exact ⟨UrlPiece.ext (String.toList_inj.1 hliteral) (String.toList_inj.1 hname),
    String.toList_inj.1 hrest⟩

theorem eq_of_assemble_eq (hlast : Unclosed last.toList) (hlast' : Unclosed last'.toList)
    (h : assemble pieces last = assemble pieces' last') : pieces = pieces' ∧ last = last' := by
  induction pieces generalizing pieces' with
  | nil =>
    cases pieces' with
    | nil => exact ⟨rfl, h⟩
    | cons p' pieces' =>
      obtain rfl : last = assemble (p' :: pieces') last' := h
      exact absurd hlast (not_unclosed_assemble_cons p' pieces' last')
  | cons p pieces ih =>
    cases pieces' with
    | nil =>
      obtain rfl : assemble (p :: pieces) last = last' := h
      exact absurd hlast' (not_unclosed_assemble_cons p pieces last)
    | cons p' pieces' =>
      obtain ⟨rfl, hrest⟩ := eq_of_assemble_cons_eq h
      obtain ⟨rfl, rfl⟩ := ih hrest
      exact ⟨rfl, rfl⟩

end UrlPiece

/-- A url cut at its placeholders: pieces, and a text behind them that has no placeholder. -/
@[ext]
structure UrlParts where
  pieces : List UrlPiece
  last : String
  last_unclosed : Unclosed last.toList

namespace UrlParts

def text (parts : UrlParts) : String := UrlPiece.assemble parts.pieces parts.last

def names (parts : UrlParts) : List String := parts.pieces.map UrlPiece.name

end UrlParts

namespace UrlTemplate

theorem of_unclosed {s : List Char} (h : Unclosed s) : UrlTemplate s [] := by
  by_cases hopen : '\x7b' ∈ s
  · obtain ⟨text, rest, rfl, htext⟩ := List.eq_append_cons_of_mem hopen
    exact .unclosed htext (h text rest rfl)
  · exact .plain hopen

theorem assemble {last : String} (hlast : UrlTemplate last.toList []) (pieces : List UrlPiece) :
    UrlTemplate (UrlPiece.assemble pieces last).toList
      ((pieces.map UrlPiece.name).map String.toList) := by
  induction pieces with
  | nil => exact hlast
  | cons p pieces ih =>
    rw [UrlPiece.toList_assemble_cons]
    exact .named p.literal_unopened p.name_unclosed ih

theorem urlPlaceholders_eq {url : String} {names : List String}
    (h : UrlTemplate url.toList (names.map String.toList)) : urlPlaceholders url = names := by
  rw [urlPlaceholders, h.scanPlaceholders_eq, List.map_map]
  exact (List.map_congr_left fun name _ => String.ofList_toList).trans (List.map_id _)

theorem exists_parts {s : List Char} {names : List (List Char)} (h : UrlTemplate s names) :
    ∃ parts : UrlParts, parts.text.toList = s := by
  induction h with
  | @plain text htext =>
    have hlast : Unclosed (String.ofList text).toList := by
      rw [String.toList_ofList]
      exact unclosed_of_notMem htext
    exact ⟨⟨[], String.ofList text, hlast⟩, String.toList_ofList⟩
  | @unclosed text rest htext hrest =>
    have hlast : Unclosed (String.ofList (text ++ '\x7b' :: rest)).toList := by
      rw [String.toList_ofList]
      exact unclosed_append htext hrest
    exact ⟨⟨[], String.ofList (text ++ '\x7b' :: rest), hlast⟩, String.toList_ofList⟩
  | @named text name rest names htext hname _ ih =>
    obtain ⟨parts, rfl⟩ := ih
    let first : UrlPiece :=
      ⟨String.ofList text, String.ofList name, by simpa using htext, by simpa using hname⟩
    refine ⟨⟨first :: parts.pieces, parts.last, parts.last_unclosed⟩, ?_⟩
    refine (UrlPiece.toList_assemble_cons first parts.pieces parts.last).trans ?_
    simp only [first, String.toList_ofList]
    rfl

end UrlTemplate

namespace UrlParts

theorem urlPlaceholders_text (parts : UrlParts) : urlPlaceholders parts.text = parts.names :=
  (UrlTemplate.assemble (.of_unclosed parts.last_unclosed) parts.pieces).urlPlaceholders_eq

theorem exists_text_eq (url : String) : ∃ parts : UrlParts, parts.text = url := by
  obtain ⟨names, hnames⟩ := UrlTemplate.exists_names url.toList
  obtain ⟨parts, htext⟩ := hnames.exists_parts
  exact ⟨parts, String.toList_inj.1 htext⟩

theorem text_injective : Function.Injective text := by
  intro parts parts' h
  obtain ⟨hpieces, hlast⟩ :=
    UrlPiece.eq_of_assemble_eq parts.last_unclosed parts'.last_unclosed h
  exact UrlParts.ext hpieces hlast

end UrlParts

/-- Every url is cut at its placeholders in exactly one way, and their names are what is read from it:
these names and no others are those of a cut of the url. In particular names without closing braces are
read back from between literal texts without opening braces. -/
theorem urlPlaceholders_eq_iff (url : String) (names : List String) :
    (∃! parts : UrlParts, parts.text = url) ∧
    (urlPlaceholders url = names ↔ ∃ parts : UrlParts, parts.text = url ∧ parts.names = names) ∧
    ∀ (pieces : List UrlPiece) (last : String), '\x7b' ∉ last.toList →
      urlPlaceholders (UrlPiece.assemble pieces last) = pieces.map UrlPiece.name := by
  obtain ⟨parts, rfl⟩ := UrlParts.exists_text_eq url
  refine ⟨⟨parts, rfl, fun parts' h => UrlParts.text_injective h⟩, ?_, ?_⟩
  · constructor
    · rintro rfl
      exact ⟨parts, rfl, parts.urlPlaceholders_text.symm⟩
    · rintro ⟨parts', htext, rfl⟩
      rw [← htext, parts'.urlPlaceholders_text]
  · intro pieces last hlast
    exact UrlParts.urlPlaceholders_text ⟨pieces, last, UrlTemplate.unclosed_of_notMem hlast⟩

/-- A name with an opening brace, an empty name right behind it, and a text with a brace that is not
closed. -/
theorem urlPlaceholders_eq_iff_nested :
    (∃! parts : UrlParts, parts.text = "/\x7ba\x7bb\x7d\x7b\x7d/\x7bc") ∧
    urlPlaceholders "/\x7ba\x7bb\x7d\x7b\x7d/\x7bc" = ["a\x7bb", ""] ∧
    '\x7b' ∉ "/".toList ∧ urlPlaceholders (UrlPiece.assemble
      [⟨"/", "id", by decide, by decide⟩, ⟨"", "tag", by decide, by decide⟩] "/") = ["id", "tag"] := by
  obtain ⟨hunique, hnames, hback⟩ :=
    urlPlaceholders_eq_iff "/\x7ba\x7bb\x7d\x7b\x7d/\x7bc" ["a\x7bb", ""]
  have hlast : '\x7b' ∉ "/".toList := by decide
  refine ⟨hunique, hnames.2 ?_, hlast, hback _ "/" hlast⟩
  refine ⟨⟨[⟨"/", "a\x7bb", by decide, by decide⟩, ⟨"", "", by decide, by decide⟩], "/\x7bc", ?_⟩, rfl, rfl⟩
  exact UrlTemplate.unclosed_append (by decide : '\x7b' ∉ ['/']) (by decide : '\x7d' ∉ ['c'])

end ComponentGlue
