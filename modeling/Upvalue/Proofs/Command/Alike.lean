import Upvalue.Proofs.Command.Arguments
import Upvalue.Proofs.Command.Convert
import Upvalue.Proofs.Program.Text

/-!
This module contains what a command sees of a directory. Files that are neither read nor written do
not matter to it, whatever their texts are and whether they are there or not.
-/

namespace Upvalue.Command

open Upvalue.Json (exists_of_bind_eq_ok)

namespace Directory

/--
Two directories have the same directories inside of them, and the same files where some paths lead.
-/
structure AlikeOn (used : List String) (dir dir' : Directory) : Prop where
  directories : ∀ path, dir.hasDirectory path = dir'.hasDirectory path
  texts : ∀ path ∈ used, ∀ file, dir.follow (.start path) (pathNames path) = .ok (.inside file) →
    dir.text? file = dir'.text? file
  output : dir.output = dir'.output

variable {used : List String} {dir dir' after : Directory} {place : Place} {path : String}

section Follow

variable (hdirectories : ∀ path, dir.hasDirectory path = dir'.hasDirectory path)

include hdirectories

theorem directory_iff : dir.node place = .directory ↔ dir'.node place = .directory := by
  cases place with
  | inside path =>
    rw [node_inside_eq_directory_iff, node_inside_eq_directory_iff, hdirectories]
  | around path => rfl
  | system path => rfl

theorem enter_of_directories (h : dir.enter place = .ok ()) : dir'.enter place = .ok () := by
  rw [enter_ok_iff] at *
  exact (directory_iff hdirectories).mp h

theorem step_of_directories {name : String} {next : Place} (h : dir.step place name = .ok next) :
    dir'.step place name = .ok next := by
  rcases exists_of_bind_eq_ok h with ⟨⟨⟩, henter, hrest⟩
  rw [step, enter_of_directories hdirectories henter]
  exact hrest

theorem follow_of_directories {names : Path} {found : Place}
    (h : dir.follow place names = .ok found) : dir'.follow place names = .ok found := by
  induction names generalizing place with
  | nil => exact h
  | cons name names ih =>
    rcases exists_of_bind_eq_ok h with ⟨next, hstep, hrest⟩
    rw [follow, step_of_directories hdirectories hstep]
    exact ih hrest

theorem locate_of_directories (h : dir.locate path = .ok place) :
    dir'.locate path = .ok place := by
  unfold locate at *
  rcases exists_of_bind_eq_ok h with ⟨_, hcheck, h⟩
  rw [hcheck]
  cases hnames : (pathNames path).reverse with
  | nil =>
    rw [hnames] at h
    cases h
  | cons name names =>
    simp only [hnames] at h ⊢
    rcases exists_of_bind_eq_ok h with ⟨parent, hfollow, h⟩
    rcases exists_of_bind_eq_ok h with ⟨⟨⟩, henter, h⟩
    split at h
    . cases h
    . next hslash =>
      simp only [bind, Except.bind, follow_of_directories hdirectories hfollow,
        enter_of_directories hdirectories henter, if_neg hslash]
      exact step_of_directories hdirectories h

end Follow

theorem follow_append (names names' : Path) : dir.follow place (names ++ names')
    = dir.follow place names >>= fun next => dir.follow next names' := by
  induction names generalizing place with
  | nil => rfl
  | cons name names ih =>
    rw [List.cons_append, follow, follow]
    cases dir.step place name with
    | error error => rfl
    | ok next => exact ih

/-- A file is where its path leads. -/
theorem follow_of_locate (h : dir.locate path = .ok place) :
    dir.follow (.start path) (pathNames path) = .ok place := by
  unfold locate at h
  rcases exists_of_bind_eq_ok h with ⟨_, -, h⟩
  cases hnames : (pathNames path).reverse with
  | nil =>
    rw [hnames] at h
    cases h
  | cons name names =>
    simp only [hnames] at h
    rcases exists_of_bind_eq_ok h with ⟨parent, hfollow, h⟩
    rcases exists_of_bind_eq_ok h with ⟨_, -, h⟩
    split at h
    . cases h
    . rw [← List.reverse_reverse (pathNames path), hnames, List.reverse_cons, follow_append,
        hfollow]
      change dir.step parent name >>= _ = _
      rw [h]
      rfl

section Alike

variable (h : AlikeOn used dir dir')

theorem AlikeOn.refl (used : List String) (dir : Directory) : AlikeOn used dir dir :=
  ⟨fun _ => rfl, fun _ _ _ _ => rfl, rfl⟩

theorem AlikeOn.symm (h : AlikeOn used dir dir') : AlikeOn used dir' dir where
  directories path := (h.directories path).symm
  texts path hpath file hfile := (h.texts path hpath file
    (follow_of_directories (fun path => (h.directories path).symm) hfile)).symm
  output := h.output.symm

include h

theorem AlikeOn.node (hpath : path ∈ used)
    (hplace : dir.follow (.start path) (pathNames path) = .ok place) :
    dir'.node place = dir.node place := by
  cases place with
  | inside file =>
    rw [Directory.node, Directory.node, h.directories, h.texts path hpath file hplace]
  | around path => rfl
  | system path => rfl

theorem AlikeOn.find (hpath : path ∈ used) {node : Node} (hfind : dir.find path = .ok node) :
    dir'.find path = .ok node := by
  rcases exists_of_bind_eq_ok hfind with ⟨_, hcheck, hfind⟩
  rcases exists_of_bind_eq_ok hfind with ⟨place, hfollow, hfind⟩
  rw [Directory.find, hcheck]
  change (dir'.follow (.start path) (pathNames path) >>= fun place => _) = _
  rw [follow_of_directories h.directories hfollow]
  dsimp only [bind, Except.bind]
  rw [h.node hpath hfollow]
  exact hfind

theorem AlikeOn.read (hpath : path ∈ used) {text : String} (hread : dir.read path = .ok text) :
    dir'.read path = .ok text := by
  rcases exists_of_bind_eq_ok hread with ⟨node, hfind, hread⟩
  rw [Directory.read, h.find hpath hfind]
  exact hread

end Alike

end Directory

namespace Convert

open Directory

variable {used : List String} {dir dir' after after' : Directory}
variable {input : String} {output config : Option String} {pretty : Bool}

/-- The paths of the files that a conversion reads or writes, but for the source texts. -/
def usedPaths (input : String) (output config : Option String) : List String :=
  input :: config.getD configFile :: output.toList

section Alike

variable (h : AlikeOn (usedPaths input output config) dir dir')

include h

end Alike

theorem Configured.unique {c c' : Config} (hconfig : Configured host dir config c)
    (hconfig' : Configured host dir config c') : c = c' := by
  have hanswer := hconfig.answer_loadConfig host_atomic
  rw [hconfig'.answer_loadConfig host_atomic] at hanswer
  cases hanswer
  rfl

theorem Loaded.unique {p p' : Program} (hload : Loaded host dir input p)
    (hload' : Loaded host dir input p') : p = p' := by
  rcases hload with ⟨text, htext, hload⟩
  rcases hload' with ⟨text', htext', hload'⟩
  rw [htext] at htext'
  cases htext'
  rw [hload] at hload'
  cases hload'
  rfl

/-- How a conversion ends that has a text to deliver, or none. -/
inductive Ends (dir : Directory) (output : Option String) :
    Option String → Output → Directory → Prop where
  | failed {result : Output} (hcode : result.code = 1) (hout : result.out = "") :
      Ends dir output none result dir
  | converted {text : String} {result : Output} {after : Directory} (hcode : result.code = 0)
      (hdelivered : Delivered dir text output result.out after) :
      Ends dir output (some text) result after

/-- What one run changes in a directory, the other one changes in the same way. -/
def SameChanges (dir after dir' after' : Directory) : Prop :=
  ∀ place, dir.node place ≠ after.node place ∨ dir'.node place ≠ after'.node place →
    dir.node place = dir'.node place ∧ after.node place = after'.node place

theorem sameChanges_of_files (hfiles : after.files = dir.files)
    (hfiles' : after'.files = dir'.files) :
    SameChanges dir after dir' after' := by
  rintro place (hne | hne)
  . exact absurd (node_of_files hfiles).symm hne
  . exact absurd (node_of_files hfiles').symm hne

theorem Delivered.same (h : AlikeOn (usedPaths input output config) dir dir')
    {text out out' : String} (hdelivered : Delivered dir text output out after)
    (hdelivered' : Delivered dir' text output out' after') :
    out = out' ∧ after.output = after'.output ∧ SameChanges dir after dir' after' := by
  have hsame {path : String} {place place' : Place} (houtput : output = some path)
      (hplace : dir.locate path = .ok place) (hplace' : dir'.locate path = .ok place') :
      place' = place ∧ dir'.node place = dir.node place := by
    rw [locate_of_directories h.directories hplace] at hplace'
    cases hplace'
    exact ⟨rfl, h.node (by simp [usedPaths, houtput]) (follow_of_locate hplace)⟩
  cases hdelivered with
  | printed =>
    cases hdelivered'
    exact ⟨rfl, h.output, sameChanges_of_files rfl rfl⟩
  | @file path file after hfile hnode houtput herrors =>
    cases hdelivered' with
    | @file _ file' _ hfile' hnode' houtput' herrors' =>
      rcases hsame rfl hfile hfile' with ⟨⟨⟩, heq⟩
      refine ⟨rfl, by rw [houtput, houtput', h.output], ?_⟩
      intro place hne
      have hplace : place = .inside file := by
        by_contra hplace
        rw [hnode, hnode', if_neg hplace, if_neg hplace] at hne
        exact hne.elim (· rfl) (· rfl)
      subst hplace
      rw [hnode, hnode', if_pos rfl, if_pos rfl]
      exact ⟨heq.symm, rfl⟩
    | device hplace' hdevice' hsend' hfiles' =>
      rcases hsame rfl hfile hplace' with ⟨rfl, heq⟩
      exact absurd hdevice' node_inside_ne_device
    | outside hplace' hinside' hdevice' =>
      rcases hsame rfl hfile hplace' with ⟨rfl, heq⟩
      exact absurd rfl (hinside' file)
  | @device path place device after hplace hdevice hsend hfiles =>
    cases hdelivered' with
    | file hfile' hnode' houtput' herrors' =>
      rcases hsame rfl hplace hfile' with ⟨rfl, heq⟩
      exact absurd hdevice node_inside_ne_device
    | @device _ _ device' _ hplace' hdevice' hsend' hfiles' =>
      rcases hsame rfl hplace hplace' with ⟨rfl, heq⟩
      rw [heq, hdevice] at hdevice'
      cases hdevice'
      refine ⟨rfl, ?_, sameChanges_of_files hfiles hfiles'⟩
      rw [output_of_send hsend, output_of_send hsend', h.output]
    | outside hplace' hinside' hdevice' =>
      rcases hsame rfl hplace hplace' with ⟨rfl, heq⟩
      exact absurd (heq.trans hdevice) (hdevice' device)
  | outside hplace hinside hdevice =>
    cases hdelivered' with
    | file hfile' hnode' houtput' herrors' =>
      rcases hsame rfl hplace hfile' with ⟨rfl, heq⟩
      exact absurd rfl (hinside _)
    | device hplace' hdevice' hsend' hfiles' =>
      rcases hsame rfl hplace hplace' with ⟨rfl, heq⟩
      exact absurd (heq.symm.trans hdevice') (hdevice _)
    | outside hplace' hinside' hdevice' => exact ⟨rfl, h.output, sameChanges_of_files rfl rfl⟩

theorem Ends.same (h : AlikeOn (usedPaths input output config) dir dir') {text? : Option String}
    {result result' : Output} (hends : Ends dir output text? result after)
    (hends' : Ends dir' output text? result' after') :
    result.code = result'.code ∧ result.out = result'.out ∧ after.output = after'.output ∧
      SameChanges dir after dir' after' := by
  cases hends with
  | failed hcode hout =>
    cases hends' with
    | failed hcode' hout' =>
      exact ⟨hcode.trans hcode'.symm, hout.trans hout'.symm, h.output, sameChanges_of_files rfl rfl⟩
  | converted hcode hdelivered =>
    cases hends' with
    | converted hcode' hdelivered' =>
      exact ⟨hcode.trans hcode'.symm, hdelivered.same h hdelivered'⟩

end Convert

end Upvalue.Command
