import ComponentGlue.Artifact
import ComponentGlue.Proofs.Disk.Tree
import ComponentGlue.Proofs.Pipeline.Phases

set_option autoImplicit false
set_option relaxedAutoImplicit false

namespace ComponentGlue

namespace FileTree

theorem disk_write (t : FileTree) (p : Path) (content : String) : disk.write p content t =
    match t.write p content with
    | .ok t' => (.ok (), t')
    | .error e => (.error e, t) := rfl

theorem write_of_disk_write {t t' : FileTree} {p : Path} {content : String}
    (h : disk.write p content t = (.ok (), t')) : t.write p content = .ok t' := by
  rw [disk_write] at h
  cases hwrite : t.write p content with
  | error e =>
    rw [hwrite] at h
    cases congrArg Prod.fst h
  | ok written =>
    rw [hwrite] at h
    exact congrArg Except.ok (congrArg Prod.snd h)

end FileTree

namespace Artifact

open FileTree (placeOf)

theorem replace_eq (t : FileTree) (p : Path) (content : String) :
    replace FileTree.disk p content t =
      match p.parent? with
      | none => FileTree.disk.write p content t
      | some parent =>
        match t.createDirs parent with
        | .error e => (.error e, t)
        | .ok created => FileTree.disk.write p content created := by
  unfold replace
  cases p.parent? with
  | none => rfl
  | some parent =>
    rcases hdirs : t.createDirs parent with e | created
    · have hdisk : FileTree.disk.createDirs parent t = (.error e, t) := by
        simp only [FileTree.disk, hdirs]
      simp only [stateM_bind_apply, hdisk, hdirs]
      rfl
    · have hdisk : FileTree.disk.createDirs parent t = (.ok (), created) := by
        simp only [FileTree.disk, hdirs]
      simp only [stateM_bind_apply, hdisk, hdirs]

theorem write_eq (t : FileTree) (dir : Path) (a : Artifact) :
    a.write FileTree.disk dir t =
      let replaced := replace FileTree.disk (a.path dir) a.content t
      match t.read (a.path dir) with
      | .ok existing =>
        if existing == a.content then (.ok false, t)
        else (replaced.1.map fun () => true, replaced.2)
      | .error .notFound => (replaced.1.map fun () => true, replaced.2)
      | .error e => (.error e, t) := by
  have hdisk : FileTree.disk.read (a.path dir) t = (t.read (a.path dir), t) := rfl
  unfold write
  simp only [stateM_bind_apply, hdisk]
  rcases t.read (a.path dir) with e | existing
  · cases e <;> rfl
  · dsimp only
    split <;> rfl

section Files

variable {t t' : FileTree} {dir p q : Path} {a : Artifact} {as : List Artifact}
  {content old : String} {written : Bool} {names : List String}

theorem exists_write_of_replace (h : replace FileTree.disk p content t = (.ok (), t')) :
    ∃ created : FileTree, (∀ q old, t.read q = .ok old → created.read q = .ok old) ∧
      created.write p content = .ok t' := by
  rw [replace_eq] at h
  split at h
  · exact ⟨t, fun q old hread => hread, FileTree.write_of_disk_write h⟩
  · split at h
    · cases congrArg Prod.fst h
    · next created hcreated =>
      exact ⟨created, fun q old => FileTree.read_of_createDirs hcreated,
        FileTree.write_of_disk_write h⟩

theorem write_of_current (h : t.read (a.path dir) = .ok a.content) :
    a.write FileTree.disk dir t = (.ok false, t) := by
  rw [write_eq]
  simp [h]

theorem write_cases (h : a.write FileTree.disk dir t = (.ok written, t')) :
    (t.read (a.path dir) = .ok a.content ∧ t' = t) ∨
      replace FileTree.disk (a.path dir) a.content t = (.ok (), t') := by
  have hreplaced : ((replace FileTree.disk (a.path dir) a.content t).1.map fun () => true,
      (replace FileTree.disk (a.path dir) a.content t).2) = (.ok written, t') →
      replace FileTree.disk (a.path dir) a.content t = (.ok (), t') := by
    rcases replace FileTree.disk (a.path dir) a.content t with ⟨e | ⟨⟩, t''⟩
    · intro hfailed
      cases congrArg Prod.fst hfailed
    · intro hok
      exact congrArg (Prod.mk _) (congrArg Prod.snd hok)
  rw [write_eq] at h
  dsimp only at h
  split at h
  · next existing hread =>
    split at h
    · next hsame =>
      exact Or.inl ⟨hread.trans (congrArg Except.ok (beq_iff_eq.1 hsame)),
        (congrArg Prod.snd h).symm⟩
    · exact Or.inr (hreplaced h)
  · exact Or.inr (hreplaced h)
  · cases congrArg Prod.fst h

theorem read_of_write (h : a.write FileTree.disk dir t = (.ok written, t')) :
    t'.read (a.path dir) = .ok a.content := by
  rcases write_cases h with ⟨hread, rfl⟩ | hreplace
  · exact hread
  · obtain ⟨created, -, hwrite⟩ := exists_write_of_replace hreplace
    exact FileTree.read_of_write hwrite

theorem read_of_write_of_ne (h : a.write FileTree.disk dir t = (.ok written, t'))
    (hread : t.read q = .ok old) (hne : placeOf q ≠ placeOf (a.path dir)) :
    t'.read q = .ok old := by
  rcases write_cases h with ⟨-, rfl⟩ | hreplace
  · exact hread
  · obtain ⟨created, hkeeps, hwrite⟩ := exists_write_of_replace hreplace
    exact FileTree.read_of_write_of_ne hwrite (hkeeps q old hread) hne

theorem writeAll_cons_of_ok (h : a.write FileTree.disk dir t = (.ok written, t')) :
    writeAll FileTree.disk dir (a :: as) t =
      (((writeAll FileTree.disk dir as t').1.1, if written then
        a.fileName :: (writeAll FileTree.disk dir as t').1.2
        else (writeAll FileTree.disk dir as t').1.2), (writeAll FileTree.disk dir as t').2) := by
  rw [writeAll]
  simp only [stateM_bind_apply, h]
  rfl

theorem writeAll_cons_of_error {e : FileError}
    (h : a.write FileTree.disk dir t = (.error e, t')) :
    writeAll FileTree.disk dir (a :: as) t =
      ((.error (.during (.writing (a.path dir).text) (.stated e.text)), []), t') := by
  rw [writeAll]
  simp only [stateM_bind_apply, h]
  rfl

theorem writeAll_of_current (h : ∀ a ∈ as, t.read (a.path dir) = .ok a.content) :
    writeAll FileTree.disk dir as t = ((.ok (), []), t) := by
  induction as with
  | nil => rfl
  | cons a as ih =>
    rw [writeAll_cons_of_ok (write_of_current (h a List.mem_cons_self)),
      ih fun b hb => h b (List.mem_cons_of_mem a hb)]
    rfl

theorem sublist_writeAll (t : FileTree) (dir : Path) (as : List Artifact) :
    (writeAll FileTree.disk dir as t).1.2.Sublist (as.map Artifact.fileName) := by
  induction as generalizing t with
  | nil => exact List.Sublist.refl _
  | cons a as ih =>
    rcases hwrite : a.write FileTree.disk dir t with ⟨e | written, t'⟩
    · rw [writeAll_cons_of_error hwrite]
      exact List.nil_sublist _
    · rw [writeAll_cons_of_ok hwrite]
      cases written with
      | false => exact (ih t').cons _
      | true => exact (ih t').cons_cons _

theorem read_of_writeAll_of_ne (hok : (writeAll FileTree.disk dir as t).1.1 = .ok ())
    (hread : t.read q = .ok old) (hne : ∀ a ∈ as, placeOf q ≠ placeOf (a.path dir)) :
    (writeAll FileTree.disk dir as t).2.read q = .ok old := by
  induction as generalizing t with
  | nil => exact hread
  | cons a as ih =>
    rcases hwrite : a.write FileTree.disk dir t with ⟨e | written, t'⟩
    · rw [writeAll_cons_of_error hwrite] at hok
      cases hok
    · rw [writeAll_cons_of_ok hwrite] at hok ⊢
      exact ih hok (read_of_write_of_ne hwrite hread (hne a List.mem_cons_self))
        fun b hb => hne b (List.mem_cons_of_mem a hb)

theorem read_of_writeAll (hok : (writeAll FileTree.disk dir as t).1.1 = .ok ())
    (hplaces : (as.map fun a => placeOf (a.path dir)).Nodup) :
    ∀ a ∈ as, (writeAll FileTree.disk dir as t).2.read (a.path dir) = .ok a.content := by
  induction as generalizing t with
  | nil => exact fun _ ha => absurd ha List.not_mem_nil
  | cons a as ih =>
    obtain ⟨hfirst, hrest⟩ := List.nodup_cons.1 hplaces
    rcases hwrite : a.write FileTree.disk dir t with ⟨e | written, t'⟩
    · rw [writeAll_cons_of_error hwrite] at hok
      cases hok
    · rw [writeAll_cons_of_ok hwrite] at hok ⊢
      refine List.forall_mem_cons.2 ⟨?_, ih hok hrest⟩
      exact read_of_writeAll_of_ne hok (read_of_write hwrite)
        fun b hb heq => hfirst (List.mem_map.2 ⟨b, hb, heq.symm⟩)

end Files

end Artifact

end ComponentGlue
