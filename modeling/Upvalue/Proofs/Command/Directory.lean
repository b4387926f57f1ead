import Mathlib.Data.String.Basic
import Upvalue.Command.Directory
import Upvalue.Proofs.Json.Origin

/-!
This module contains what is at the places of a directory after a file has been written.
-/

namespace Upvalue.Command

open Upvalue.Json (exists_of_bind_eq_ok)

section Names

open String

end Names

namespace Directory

variable {dir dir' : Directory} {path file : Path} {place : Place} {text : String}

section Inside

end Inside

section Put

theorem node_of_files (h : dir'.files = dir.files) : dir'.node place = dir.node place := by
  cases place with
  | inside path => rw [node, node, hasDirectory, hasDirectory, text?, text?, h]
  | around path => rfl
  | system path => rfl

end Put

section Write

theorem enter_ok_iff : dir.enter place = .ok () ↔ dir.node place = .directory := by
  unfold enter
  split
  . next h => simp [h]
  . next h => simp [h]
  . next hdirectory _ => simpa using hdirectory

theorem step_ok {name : String} {next : Place} (h : dir.step place name = .ok next) :
    dir.node place = .directory ∧
      (next = place ∨ next = place.parent ∨ next = place.child name) := by
  rcases exists_of_bind_eq_ok h with ⟨⟨⟩, henter, h⟩
  refine ⟨enter_ok_iff.mp henter, ?_⟩
  split at h
  . exact .inl (Except.ok.inj h).symm
  split at h
  . exact .inr (.inl (Except.ok.inj h).symm)
  split at h
  . cases h
  . exact .inr (.inr (Except.ok.inj h).symm)

theorem node_inside_eq_directory_iff :
    dir.node (.inside path) = .directory ↔ dir.hasDirectory path = true := by
  rw [node]
  split
  . next h => simp [h]
  . next h =>
    cases dir.text? path with
    | none => simp [h]
    | some text => simp [h]

theorem node_inside_ne_device {device : Device} : dir.node (.inside path) ≠ .device device := by
  rw [node]
  split
  . simp
  . cases dir.text? path with
    | none => simp
    | some text => simp

theorem output_of_send {device : Device} (h : dir.send device text = .ok dir') :
    dir'.output = dir.output ++ (if device = .output then text else "") := by
  cases device with
  | full => cases h
  | output =>
    cases h
    rfl
  | _ =>
    cases h
    exact String.append_empty.symm

end Write

end Directory

end Upvalue.Command
