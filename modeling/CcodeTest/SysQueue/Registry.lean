import Mathlib.Data.List.Basic

/-!
# The registry of stored files

The files to be saved are kept in a singly linked list, the newest first. `file_storage_register`
inserts at the head; `file_storage_unregister` is to take a file out again, and
`file_storage_unregister_all` all of them.

The loop of `file_storage_unregister` runs until the list is empty and looks at the head only. An
entry of another name at the head is neither removed nor passed over, and the loop never ends. The
list is the one that the macros make of the links; the loops are given a number of passes and are
`none` when these do not suffice, or when a NULL pointer is compared.
-/

namespace CcodeTest.SysQueue

/-- `struct file_storage`. The name is NULL if `strdup` found no memory. -/
structure FileStorage where
  filename : Option (List UInt8)
  mutex : Nat
deriving DecidableEq

/-- A call of `file_storage_register`, with what `malloc` and `strdup` answer. -/
structure RegisterCall where
  pathname : Option (List UInt8)
  mutex : Nat
  malloc : Bool
  strdup : Bool

/-- `file_storage_register`: the result, which is undefined on success, and the list. -/
def fileStorageRegister (list : List FileStorage) (call : RegisterCall) :
    Option Int × List FileStorage :=
  match call.malloc, call.pathname with
  | true, some pathname =>
    (none, ⟨if call.strdup then some pathname else none, call.mutex⟩ :: list)
  | _, _ => (some (-1), list)

/-- The list after any calls of `file_storage_register`. -/
def registry (calls : List RegisterCall) : List FileStorage :=
  calls.foldl (fun list call => (fileStorageRegister list call).2) []

/-- The loop of `file_storage_unregister`. -/
def unregisterLoop (filename : List UInt8) : Nat → List FileStorage → Option (List FileStorage)
  | _, [] => some []
  | 0, _ :: _ => none
  | passes + 1, fs :: list =>
    fs.filename.bind fun name =>
      if name = filename then unregisterLoop filename passes list
      else unregisterLoop filename passes (fs :: list)

/-- `file_storage_unregister`, the list behind it. -/
def fileStorageUnregister (passes : Nat) (filename : Option (List UInt8))
    (list : List FileStorage) : Option (List FileStorage) :=
  match filename with
  | none => some list
  | some filename => unregisterLoop filename passes list

/-- The loop of `file_storage_unregister_all`. -/
def fileStorageUnregisterAll : Nat → List FileStorage → Option (List FileStorage)
  | _, [] => some []
  | 0, _ :: _ => none
  | passes + 1, _ :: list => fileStorageUnregisterAll passes list

section Unregister

variable {filename : List UInt8} {list list' : List FileStorage} {passes : Nat}

/-- The loop ends with the empty list, and only if every entry is of the name. -/
lemma unregisterLoop_eq_some (h : unregisterLoop filename passes list = some list') :
    list' = [] ∧ ∀ fs ∈ list, fs.filename = some filename := by
  induction passes generalizing list with
  | zero =>
    cases list with
    | nil =>
      cases h
      exact ⟨rfl, fun fs hfs => absurd hfs List.not_mem_nil⟩
    | cons fs list => cases h
  | succ passes ih =>
    cases list with
    | nil =>
      cases h
      exact ⟨rfl, fun fs hfs => absurd hfs List.not_mem_nil⟩
    | cons fs list =>
      rw [unregisterLoop] at h
      cases hname : fs.filename with
      | none =>
        rw [hname] at h
        cases h
      | some name =>
        rw [hname, Option.bind_some] at h
        split at h
        · rename_i heq
          obtain ⟨hnil, hall⟩ := ih h
          refine ⟨hnil, ?_⟩
          intro fs' hfs'
          rcases List.mem_cons.1 hfs' with rfl | hfs'
          · rw [hname, heq]
          · exact hall fs' hfs'
        · -- the pass has left the list as it was
          exact ih h

/-- With only entries of the name the loop does what `file_storage_unregister_all` does. -/
lemma unregisterLoop_of_all (hall : ∀ fs ∈ list, fs.filename = some filename) :
    unregisterLoop filename passes list = fileStorageUnregisterAll passes list := by
  induction passes generalizing list with
  | zero =>
    cases list with
    | nil => rfl
    | cons fs list => rfl
  | succ passes ih =>
    cases list with
    | nil => rfl
    | cons fs list =>
      rw [unregisterLoop, hall fs (List.mem_cons_self ..), Option.bind_some, if_pos rfl,
        ih fun fs hfs => hall fs (List.mem_cons_of_mem _ hfs), fileStorageUnregisterAll]

lemma fileStorageUnregisterAll_eq (list : List FileStorage) :
    fileStorageUnregisterAll list.length list = some [] := by
  induction list with
  | nil => rfl
  | cons fs list ih => exact ih

/-- A name is unregistered, and the call returns, exactly if the registry has no other entries. -/
theorem fileStorageUnregister_iff (calls : List RegisterCall) (filename : List UInt8) :
    (∃ passes list, fileStorageUnregister passes (some filename) (registry calls) = some list ∧
      list = (registry calls).filter fun fs => fs.filename != some filename) ↔
        ∀ fs ∈ registry calls, fs.filename = some filename := by
  constructor
  · rintro ⟨passes, list, hrun, -⟩
    exact (unregisterLoop_eq_some hrun).2
  · intro hall
    refine ⟨(registry calls).length, [], ?_, ?_⟩
    · exact (unregisterLoop_of_all hall).trans (fileStorageUnregisterAll_eq _)
    · symm
      rw [List.filter_eq_nil_iff]
      intro fs hfs
      simp [hall fs hfs]

/-- Two files: the newer one is at the head, and the older one is never reached. -/
theorem fileStorageUnregister_never :
    ¬ ∃ passes list, fileStorageUnregister passes (some [97])
        (registry [⟨some [97], 0, true, true⟩, ⟨some [98], 0, true, true⟩]) = some list ∧
      list = (registry [⟨some [97], 0, true, true⟩, ⟨some [98], 0, true, true⟩]).filter
        fun fs => fs.filename != some [97] := by
  rintro ⟨passes, list, hrun, -⟩
  have hall := (unregisterLoop_eq_some hrun).2 ⟨some [98], 0⟩ (by decide)
  exact absurd hall (by decide)

end Unregister

end CcodeTest.SysQueue
