import ComponentGlue.Disk.Tree
import ComponentGlue.Proofs.Table
import ComponentGlue.Proofs.Text

set_option autoImplicit false
set_option relaxedAutoImplicit false

namespace ComponentGlue

namespace FileTree

/-- Where segments lead from a directory, whatever is there. -/
def placeFrom (place : Place) : List String → Place
  | [] => place
  | segment :: rest =>
    if segment == "" || segment == "." then placeFrom place rest
    else if segment == ".." then placeFrom (above place) rest
    else placeFrom (place ++ [segment]) rest

def placeOf (p : Path) : Place := placeFrom (start p) (segments p)

theorem placeFrom_append (place : Place) (segs segs' : List String) :
    placeFrom place (segs ++ segs') = placeFrom (placeFrom place segs) segs' := by
  induction segs generalizing place with
  | nil => rfl
  | cons segment rest ih =>
    rw [List.cons_append, placeFrom, placeFrom]
    split
    · exact ih _
    · split
      · exact ih _
      · exact ih _

theorem placeFrom_idle {place : Place} {segs : List String} (h : ∀ s ∈ segs, s = "") :
    placeFrom place segs = place := by
  induction segs with
  | nil => rfl
  | cons segment rest ih =>
    rw [placeFrom, h segment List.mem_cons_self]
    exact ih fun s hs => h s (List.mem_cons_of_mem _ hs)

/-- A text that names an entry of a directory. -/
structure EntryName (name : String) : Prop where
  nonempty : name ≠ ""
  notDot : name ≠ "."
  notDots : name ≠ ".."
  noSlash : '/' ∉ name.toList

theorem placeFrom_entryName {name : String} (h : EntryName name) (place : Place) :
    placeFrom place [name] = place ++ [name] := by
  rw [placeFrom, if_neg (by simp [h.nonempty, h.notDot]), if_neg (by simp [h.notDots])]
  rfl

theorem above_append_entryName {name : String} (h : EntryName name) (place : Place) :
    above (place ++ [name]) = place := by
  have hroot : (place ++ [name] == ["/"]) = false := by
    refine beq_eq_false_iff_ne.2 fun heq => h.noSlash ?_
    have happend : place ++ [name] = [] ++ ["/"] := heq
    obtain ⟨-, hname⟩ := List.append_inj' happend rfl
    rw [List.singleton_inj.1 hname]
    decide
  have hgiven : isGiven (place ++ [name]) = false := by
    rw [isGiven, hroot, List.all_append]
    simp [h.notDots]
  rw [above, hroot, hgiven]
  simp

theorem segments_append_slash (text rest : String) :
    segments ⟨text ++ "/" ++ rest⟩ = segments ⟨text⟩ ++ segments ⟨rest⟩ := by
  simp only [segments, String.toList_append]
  rw [← List.map_append, ← Text.splitAll_append_cons]
  simp

theorem segments_entryName {name : String} (h : EntryName name) : segments ⟨name⟩ = [name] := by
  rw [segments, Text.splitAll_of_notMem h.noSlash]
  simp

theorem start_append {text rest : String} (h : text ≠ "") :
    start ⟨text ++ rest⟩ = start ⟨text⟩ := by
  have hnonempty : text.toList ≠ [] := by simpa using h
  unfold start Path.isAbsolute
  rw [String.toList_append, List.head?_append_of_ne_nil _ hnonempty]

/-- Continuing a path by a name leads to the entry of that name. -/
theorem placeOf_join {name : String} (h : EntryName name) (dir : Path) :
    placeOf (dir.join ⟨name⟩) = placeOf dir ++ [name] := by
  have hrelative : (⟨name⟩ : Path).isAbsolute = false := by
    refine decide_eq_false fun habsolute => h.noSlash ?_
    exact List.mem_of_mem_head? habsolute
  obtain ⟨text⟩ := dir
  by_cases hempty : text = ""
  · subst hempty
    have hjoin : (⟨""⟩ : Path).join ⟨name⟩ = ⟨name⟩ := by
      simp [Path.join]
    rw [hjoin, placeOf, placeOf, segments_entryName h, start, hrelative]
    exact placeFrom_entryName h []
  have hends : ∀ front, placeOf ⟨front ++ "/" ++ name⟩ = placeFrom (start ⟨front ++ "/"⟩)
      (segments ⟨front⟩) ++ [name] := by
    intro front
    have hfront : front ++ "/" ≠ "" := by simp
    rw [placeOf, start_append hfront, segments_append_slash, segments_entryName h,
      placeFrom_append, placeFrom_entryName h]
  by_cases hslash : text.toList.getLast? = some '/'
  · -- The slash is there already, so the path has an empty segment at its end.
    obtain ⟨front, hfront⟩ : ∃ front : String, text = front ++ "/" := by
      refine ⟨String.ofList text.toList.dropLast, String.toList_inj.1 ?_⟩
      rw [String.toList_append, String.toList_ofList]
      exact (List.dropLast_append_getLast? '/' hslash).symm
    subst hfront
    have hjoin : (⟨front ++ "/"⟩ : Path).join ⟨name⟩ = ⟨front ++ "/" ++ name⟩ := by
      simp [Path.join, hrelative]
    have hdir : placeOf ⟨front ++ "/"⟩ = placeFrom (start ⟨front ++ "/"⟩) (segments ⟨front⟩) := by
      have hsegments := segments_append_slash front ""
      rw [String.append_empty] at hsegments
      rw [placeOf, hsegments, placeFrom_append]
      exact placeFrom_idle (by simp [segments, Text.splitAll])
    rw [hjoin, hends, hdir]
  · have hjoin : (⟨text⟩ : Path).join ⟨name⟩ = ⟨text ++ "/" ++ name⟩ := by
      simp [Path.join, hrelative, hempty, hslash]
    rw [hjoin, hends, start_append hempty]
    rfl

section Nodes

variable {t t' : FileTree} {place : Place}

theorem isGiven_of_node? (h : t.node? place ≠ some .directory) : isGiven place = false := by
  refine Bool.eq_false_iff.2 fun hgiven => h ?_
  rw [node?, if_pos hgiven]

theorem node?_put_self (h : isGiven place = false) (n : FileNode) :
    (t.put place n).node? place = some n := by
  rw [node?, if_neg (by simp [h])]
  exact Table.get?_insert_self _ _ _

theorem node?_put_of_ne {place' : Place} (h : place' ≠ place) (n : FileNode) :
    (t.put place n).node? place' = t.node? place' := by
  unfold node?
  split
  · rfl
  · exact Table.get?_insert_of_ne _ _ h.symm

def KeepsDirectories (t t' : FileTree) : Prop :=
  ∀ place, t.node? place = some .directory → t'.node? place = some .directory

theorem keepsDirectories_put {n : FileNode} (h : t.node? place ≠ some .directory) :
    KeepsDirectories t (t.put place n) := by
  intro place' hnode
  have hne : place' ≠ place := fun heq => h (heq ▸ hnode)
  rwa [node?_put_of_ne hne]

theorem node?_create {segs : List String} (h : t.create place segs = .ok t') {place' : Place}
    {n : FileNode} (hnode : t.node? place' = some n) : t'.node? place' = some n := by
  induction segs generalizing t place with
  | nil =>
    obtain rfl := Except.ok.inj h
    exact hnode
  | cons segment rest ih =>
    rw [create] at h
    split at h
    · exact ih h hnode
    split at h
    · exact ih h hnode
    split at h
    · exact ih h hnode
    · cases h
    · next hvacant =>
      refine ih h ?_
      rwa [node?_put_of_ne]
      rintro rfl
      cases hvacant.symm.trans hnode

theorem node?_createDirs {p : Path} (h : t.createDirs p = .ok t') {n : FileNode}
    (hnode : t.node? place = some n) : t'.node? place = some n := by
  unfold createDirs at h
  split at h
  · cases h
  split at h
  · cases h
  · exact node?_create h hnode

end Nodes

/-- Follow the rest of a path from what is at a place. -/
def enter (t : FileTree) (place : Place) (rest : List String) : Except FileError Spot :=
  match t.node? place with
  | some .directory => t.follow place rest
  | some (.file content) =>
    if rest.isEmpty then .ok (.file place content) else .error .notDirectory
  | none => if rest.all (· == "") then .ok (.vacant place !rest.isEmpty) else .error .notFound

theorem follow_cons (place : Place) (segment : String) (rest : List String) :
    (∃ place', (∀ t : FileTree, t.follow place (segment :: rest) = t.follow place' rest) ∧
      placeFrom place (segment :: rest) = placeFrom place' rest) ∨
    (∀ t : FileTree, t.follow place (segment :: rest) = .error .nameTooLong) ∨
    ((∀ t : FileTree, t.follow place (segment :: rest) = t.enter (place ++ [segment]) rest) ∧
      placeFrom place (segment :: rest) = placeFrom (place ++ [segment]) rest) := by
  by_cases hidle : (segment == "" || segment == ".") = true
  · refine Or.inl ⟨place, fun t => ?_, ?_⟩
    · rw [follow, if_pos hidle]
    · rw [placeFrom, if_pos hidle]
  by_cases hup : (segment == "..") = true
  · refine Or.inl ⟨above place, fun t => ?_, ?_⟩
    · rw [follow, if_neg hidle, if_pos hup]
    · rw [placeFrom, if_neg hidle, if_pos hup]
  by_cases hlong : segment.utf8ByteSize > nameLimit
  · refine Or.inr (Or.inl fun t => ?_)
    rw [follow, if_neg hidle, if_neg hup, if_pos hlong]
  · refine Or.inr (Or.inr ⟨fun t => ?_, ?_⟩)
    · rw [follow, if_neg hidle, if_neg hup, if_neg hlong]
      rfl
    · rw [placeFrom, if_neg hidle, if_neg hup]

section Follow

variable {t t' : FileTree} {place file : Place} {segs rest : List String} {content : String}

theorem enter_eq_file_iff : t.enter place rest = .ok (.file file content) ↔
    (t.node? place = some .directory ∧ t.follow place rest = .ok (.file file content)) ∨
    (t.node? place = some (.file content) ∧ rest = [] ∧ file = place) := by
  unfold enter
  rcases t.node? place with - | (- | old) <;> dsimp only
  · split <;> simp
  · simp
  · cases rest <;> simp [eq_comm, and_comm]

theorem enter_eq_vacant_iff : t.enter place rest = .ok (.vacant file false) ↔
    (t.node? place = some .directory ∧ t.follow place rest = .ok (.vacant file false)) ∨
    (t.node? place = none ∧ rest = [] ∧ file = place) := by
  unfold enter
  rcases t.node? place with - | (- | old) <;> dsimp only
  · cases rest with
    | nil => simp [eq_comm]
    | cons segment rest => split <;> simp
  · simp
  · split <;> simp

theorem place_of_follow_file (h : t.follow place segs = .ok (.file file content)) :
    file = placeFrom place segs ∧ t.node? file = some (.file content) := by
  induction segs generalizing place with
  | nil => cases h
  | cons segment rest ih =>
    rcases follow_cons place segment rest with ⟨place', hfollow, hplace⟩ | hlong | ⟨hfollow, hplace⟩
    · exact hplace ▸ ih (hfollow t ▸ h)
    · cases (hlong t).symm.trans h
    · rw [hplace]
      rcases enter_eq_file_iff.1 (hfollow t ▸ h) with ⟨-, hrest⟩ | ⟨hnode, rfl, rfl⟩
      · exact ih hrest
      · exact ⟨rfl, hnode⟩

theorem place_of_follow_vacant (h : t.follow place segs = .ok (.vacant file false)) :
    file = placeFrom place segs ∧ t.node? file = none := by
  induction segs generalizing place with
  | nil => cases h
  | cons segment rest ih =>
    rcases follow_cons place segment rest with ⟨place', hfollow, hplace⟩ | hlong | ⟨hfollow, hplace⟩
    · exact hplace ▸ ih (hfollow t ▸ h)
    · cases (hlong t).symm.trans h
    · rw [hplace]
      rcases enter_eq_vacant_iff.1 (hfollow t ▸ h) with ⟨-, hrest⟩ | ⟨hnode, rfl, rfl⟩
      · exact ih hrest
      · exact ⟨rfl, hnode⟩

theorem follow_of_keeps (hkeeps : KeepsDirectories t t')
    (h : t.follow place segs = .ok (.file file content))
    (hfile : t'.node? file = some (.file content)) :
    t'.follow place segs = .ok (.file file content) := by
  induction segs generalizing place with
  | nil => cases h
  | cons segment rest ih =>
    rcases follow_cons place segment rest with ⟨place', hfollow, -⟩ | hlong | ⟨hfollow, -⟩
    · exact hfollow t' ▸ ih (hfollow t ▸ h)
    · cases (hlong t).symm.trans h
    · rw [hfollow t', enter_eq_file_iff]
      rcases enter_eq_file_iff.1 (hfollow t ▸ h) with ⟨hnode, hrest⟩ | ⟨-, hnil, rfl⟩
      · exact Or.inl ⟨hkeeps _ hnode, ih hrest⟩
      · exact Or.inr ⟨hfile, hnil, rfl⟩

def LeadsTo (t : FileTree) (place : Place) (segs : List String) (file : Place) : Prop :=
  (∃ old, t.follow place segs = .ok (.file file old)) ∨
    t.follow place segs = .ok (.vacant file false)

theorem LeadsTo.place_eq (h : t.LeadsTo place segs file) : file = placeFrom place segs := by
  rcases h with ⟨old, h⟩ | h
  · exact (place_of_follow_file h).1
  · exact (place_of_follow_vacant h).1

theorem LeadsTo.notDirectory (h : t.LeadsTo place segs file) : t.node? file ≠ some .directory := by
  rcases h with ⟨old, h⟩ | h
  · simp [(place_of_follow_file h).2]
  · simp [(place_of_follow_vacant h).2]

theorem LeadsTo.follow_put (h : t.LeadsTo place segs file) (content : String) :
    (t.put file (.file content)).follow place segs = .ok (.file file content) := by
  have hput := node?_put_self (t := t) (isGiven_of_node? h.notDirectory) (.file content)
  have hkeeps : KeepsDirectories t (t.put file (.file content)) :=
    keepsDirectories_put h.notDirectory
  induction segs generalizing place with
  | nil => rcases h with ⟨old, h⟩ | h <;> cases h
  | cons segment rest ih =>
    rcases follow_cons place segment rest with ⟨place', hfollow, -⟩ | hlong | ⟨hfollow, -⟩
    · rw [LeadsTo, hfollow t] at h
      exact hfollow _ ▸ ih h
    · rw [LeadsTo, hlong t] at h
      rcases h with ⟨old, h⟩ | h <;> cases h
    · rw [hfollow, enter_eq_file_iff]
      rcases h with ⟨old, h⟩ | h
      · rcases enter_eq_file_iff.1 (hfollow t ▸ h) with ⟨hnode, hrest⟩ | ⟨-, hnil, rfl⟩
        · exact Or.inl ⟨hkeeps _ hnode, ih (Or.inl ⟨old, hrest⟩)⟩
        · exact Or.inr ⟨hput, hnil, rfl⟩
      · rcases enter_eq_vacant_iff.1 (hfollow t ▸ h) with ⟨hnode, hrest⟩ | ⟨-, hnil, rfl⟩
        · exact Or.inl ⟨hkeeps _ hnode, ih (Or.inr hrest)⟩
        · exact Or.inr ⟨hput, hnil, rfl⟩

end Follow

section Files

variable {t t' : FileTree} {p q : Path} {content : String}

theorem locate_eq_follow (h : ∃ spot, t.locate p = .ok spot) :
    ∀ t' : FileTree, t'.locate p = t'.follow (start p) (segments p) := by
  obtain ⟨spot, h⟩ := h
  unfold locate at h ⊢
  split at h
  · cases h
  next hnul =>
  split at h
  · cases h
  next hempty =>
  split at h
  · cases h
  next hlong =>
  intro t'
  rw [if_neg hnul, if_neg hempty, if_neg hlong]

theorem read_eq_ok_iff : t.read p = .ok content ↔
    ∃ file, t.locate p = .ok (.file file content) := by
  unfold read
  rcases t.locate p with e | (place | ⟨place, old⟩ | ⟨place, slashed⟩)
  · simp
  · simp
  · simp [eq_comm]
  · simp

theorem write_eq_ok_iff : t.write p content = .ok t' ↔
    ∃ file, (t.locate p = .ok (.vacant file false) ∨ ∃ old, t.locate p = .ok (.file file old)) ∧
      t.put file (.file content) = t' := by
  unfold write
  rcases t.locate p with e | (place | ⟨place, old⟩ | ⟨place, _ | _⟩)
  · simp
  · simp
  · simp
  · simp
  · simp

theorem exists_leadsTo_of_write (h : t.write p content = .ok t') :
    t.LeadsTo (start p) (segments p) (placeOf p) ∧ t' = t.put (placeOf p) (.file content) ∧
      ∀ t'' : FileTree, t''.locate p = t''.follow (start p) (segments p) := by
  obtain ⟨file, hlocate, rfl⟩ := write_eq_ok_iff.1 h
  have hfollow : ∀ t'' : FileTree, t''.locate p = t''.follow (start p) (segments p) :=
    locate_eq_follow (hlocate.elim (fun h => ⟨_, h⟩) fun ⟨_, h⟩ => ⟨_, h⟩)
  have hleads : t.LeadsTo (start p) (segments p) file := by
    rw [hfollow] at hlocate
    exact hlocate.symm
  obtain rfl : file = placeOf p := hleads.place_eq
  exact ⟨hleads, rfl, hfollow⟩

theorem read_of_write (h : t.write p content = .ok t') : t'.read p = .ok content := by
  obtain ⟨hleads, rfl, hfollow⟩ := exists_leadsTo_of_write h
  exact read_eq_ok_iff.2 ⟨placeOf p, (hfollow _).trans (hleads.follow_put content)⟩

theorem read_of_keeps (hkeeps : KeepsDirectories t t') (h : t.read q = .ok content)
    (hfile : t.node? (placeOf q) = some (.file content) →
      t'.node? (placeOf q) = some (.file content)) : t'.read q = .ok content := by
  obtain ⟨file, hlocate⟩ := read_eq_ok_iff.1 h
  have hfollow := locate_eq_follow ⟨_, hlocate⟩
  rw [hfollow] at hlocate
  obtain ⟨rfl, hnode⟩ : file = placeOf q ∧ _ := place_of_follow_file hlocate
  exact read_eq_ok_iff.2
    ⟨placeOf q, (hfollow _).trans (follow_of_keeps hkeeps hlocate (hfile hnode))⟩

theorem read_of_write_of_ne {old : String} (h : t.write p content = .ok t')
    (hread : t.read q = .ok old) (hne : placeOf q ≠ placeOf p) : t'.read q = .ok old := by
  obtain ⟨hleads, rfl, -⟩ := exists_leadsTo_of_write h
  refine read_of_keeps (keepsDirectories_put hleads.notDirectory) hread fun hnode => ?_
  rwa [node?_put_of_ne hne]

theorem read_of_createDirs (h : t.createDirs p = .ok t') (hread : t.read q = .ok content) :
    t'.read q = .ok content :=
  read_of_keeps (fun _ hnode => node?_createDirs h hnode) hread fun hnode =>
    node?_createDirs h hnode

end Files

end FileTree

end ComponentGlue
