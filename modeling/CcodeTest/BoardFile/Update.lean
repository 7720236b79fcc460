import Mathlib.Algebra.Group.Nat.Defs
import Mathlib.Logic.Function.Basic
import Mathlib.Data.List.Basic

/-!
# Board files for the wireless firmware

`ath10k_bd_update.pl` looks through a directory for board data without the container the firmware
loader expects and writes, for each such file, a second one with the container in front of the data:
the magic, a board element, in it a name element with the board id and a data element. The header
comes from two hexadecimal constants and is cut to 80 bytes.

All three length fields are part of the constants. `boardFile_wellFormed_iff` compares them with what
follows them, and `updateFile_wellFormed_iff` says for which ids and which data the file written is
well formed.
-/

namespace CcodeTest.BoardFile

/-- The files of a disk by their path, and where a file can be created. -/
structure Disk where
  content : List Char → Option (List UInt8)
  writable : List Char → Bool

/-- The disk with a file written to it. -/
def Disk.write (d : Disk) (file : List Char) (bytes : List UInt8) : Disk :=
  { d with content := Function.update d.content file (some bytes) }

@[simp] lemma Disk.content_write_self (d : Disk) (file : List Char) (bytes : List UInt8) :
    (d.write file bytes).content file = some bytes := Function.update_self ..

lemma Disk.content_write_of_ne (d : Disk) {file p : List Char} (bytes : List UInt8) (h : p ≠ file) :
    (d.write file bytes).content p = d.content p := Function.update_of_ne h ..

/-- How the script, or one turn of its loop, ends. -/
inductive Outcome where
  | ended (d : Disk)
  | died (message : List Char) (d : Disk)

/-- `pack('H*', ..)` of a string of `2 * len` hexadecimal digits, given as a number. -/
def packH (len hex : Nat) : List UInt8 :=
  (List.range len).map fun i => UInt8.ofNat (hex / 256 ^ (len - 1 - i) % 256)

/-- `$magic_hdr`. -/
def magicHdr : Nat :=
  0x5143412d41544831304b2d424f415244006d6d6d00000000542f000000000000240000006275733d7063692c626d692d636869702d69643d302c

/-- `$magic_hdr_end`. -/
def magicHdrEnd : Nat := 0x01000000202f0000

/-- `$magic_default_len`. -/
def magicDefaultLen : Nat := 80

/-- `$max_len`. -/
def maxLen : Nat := 1024 * 1024

/-- `$magic_key`, "QCA-ATH10K-BOARD". -/
def magicKey : List UInt8 :=
  [0x51, 0x43, 0x41, 0x2d, 0x41, 0x54, 0x48, 0x31, 0x30, 0x4b, 0x2d, 0x42, 0x4f, 0x41, 0x52, 0x44]

/-- "bmi-board-id=". -/
def bmiBoardId : List UInt8 :=
  [0x62, 0x6d, 0x69, 0x2d, 0x62, 0x6f, 0x61, 0x72, 0x64, 0x2d, 0x69, 0x64, 0x3d]

/-- The path contains a text. -/
def contains (file text : List Char) : Bool := file.tails.any fun t => text.isPrefixOf t

/-- `is_wanted_files`: the path matches `boardData_.*\.bin`. -/
def isWantedFiles (file : List Char) : Bool :=
  file.tails.any fun t =>
    "boardData_".toList.isPrefixOf t &&
      contains ((t.drop 10).takeWhile fun c => c ≠ '\n') ".bin".toList

/-- `get_bmi_bd_id`: the id as it is put into the name, or the message of `die`. -/
def getBmiBdId (file : List Char) : Except (List Char) (List UInt8) :=
  if contains file "QCA9984".toList then
    if contains file "_2G_".toList then .ok [0x34]
    else if contains file "_5G_".toList then .ok [0x33]
    else .error "Do you have named you board data files in correct format?".toList
  else if contains file "QCA4019".toList then .ok [0x30]
  else .error "Do you put board data files into firmware/QCA4019/hw1.0?".toList

/-- `$magic_bin_hdr`. -/
def magicBinHdr (bmiBdId : List UInt8) : List UInt8 :=
  packH 58 magicHdr ++ bmiBoardId ++ bmiBdId ++ packH 8 magicHdrEnd

/-- What is written to the new file: the header, cut, and the data read from the old one. -/
def boardFile (bmiBdId content : List UInt8) : List UInt8 :=
  (magicBinHdr bmiBdId).take magicDefaultLen ++ content.take maxLen

/-- One turn of the loop over the directory; the id is that of the command line, if there is one. -/
def updateFile (dirPath : List Char) (bmiBdId : Option (List UInt8)) (d : Disk) (name : List Char) :
    Outcome :=
  let file := dirPath ++ '/' :: name
  if isWantedFiles file then
    match d.content file with
    | none => .died ("Can't open ".toList ++ file ++ " \n".toList) d
    | some content =>
      let bin := content.take magicKey.length
      if bin.length = magicKey.length then
        if bin = magicKey then .ended d
        else
          match bmiBdId.elim (getBmiBdId file) .ok with
          | .error message => .died message d
          | .ok id =>
            let tmp := file ++ ".tmp".toList
            if d.writable tmp then .ended (d.write tmp (boardFile id content))
            else .died ("can't open ".toList ++ tmp ++ " to write\n".toList) d
      else .ended d
  else .ended d

/-- The loop over the directory. -/
def updateFiles (dirPath : List Char) (bmiBdId : Option (List UInt8)) (d : Disk) :
    List (List Char) → Outcome
  | [] => .ended d
  | name :: fileList =>
    match updateFile dirPath bmiBdId d name with
    | .ended d' => updateFiles dirPath bmiBdId d' fileList
    | .died message d' => .died message d'

/-- The script. There is no list of files when the directory cannot be opened. -/
def ath10kBdUpdate (dirPath : Option (List Char)) (bmiBdId : Option (List UInt8)) (d : Disk)
    (fileList : Option (List (List Char))) : Outcome :=
  let dirPath := dirPath.getD ['.']
  match fileList with
  | none => .died ("Can not open ".toList ++ dirPath ++ " \n".toList) d
  | some fileList => updateFiles dirPath bmiBdId d fileList

/-! The container. -/

/-- The value of bytes of which the first is the lowest. -/
def leVal : List UInt8 → Nat
  | [] => 0
  | b :: bs => b.toNat + 256 * leVal bs

/-- The bytes are an element: its type, its length and as many bytes as the length says. -/
def Element (type : UInt8) (body bytes : List UInt8) : Prop :=
  ∃ len, len.length = 4 ∧ leVal len = body.length ∧ bytes = [type, 0, 0, 0] ++ (len ++ body)

/-- The magic: the key, a zero and "mmm". -/
def magic : List UInt8 := magicKey ++ [0, 0x6d, 0x6d, 0x6d]

/-- The name of a board, "bus=pci,bmi-chip-id=0,bmi-board-id=" and the id. -/
def boardName (id : List UInt8) : List UInt8 :=
  [0x62, 0x75, 0x73, 0x3d, 0x70, 0x63, 0x69, 0x2c, 0x62, 0x6d, 0x69, 0x2d, 0x63, 0x68, 0x69, 0x70,
    0x2d, 0x69, 0x64, 0x3d, 0x30, 0x2c] ++ bmiBoardId ++ id

/-- The magic and a board element of a name element and a data element. -/
def WellFormed (id content file : List UInt8) : Prop :=
  ∃ board name data, file = magic ++ board ∧ Element 0 (name ++ data) board ∧
    Element 0 (boardName id) name ∧ Element 1 content data

section Container

variable {id content : List UInt8}

/-- The constant: the magic, the two headers up to the name, and the beginning of the name. -/
lemma packH_magicHdr : packH 58 magicHdr =
    magic ++ ([0, 0, 0, 0] ++ ([0x54, 0x2f, 0, 0] ++ ([0, 0, 0, 0] ++ ([0x24, 0, 0, 0] ++
      (boardName []).take 22)))) := by
  decide +kernel

lemma packH_magicHdrEnd : packH 8 magicHdrEnd = [1, 0, 0, 0] ++ [0x20, 0x2f, 0, 0] := by
  decide +kernel

lemma length_boardName (id : List UInt8) : (boardName id).length = 35 + id.length := by
  simp [boardName, bmiBoardId]
  omega

lemma magicBinHdr_eq (id : List UInt8) : magicBinHdr id =
    magic ++ ([0, 0, 0, 0] ++ ([0x54, 0x2f, 0, 0] ++ ([0, 0, 0, 0] ++ ([0x24, 0, 0, 0] ++
      (boardName id ++ ([1, 0, 0, 0] ++ [0x20, 0x2f, 0, 0])))))) := by
  rw [magicBinHdr, packH_magicHdr, packH_magicHdrEnd]
  simp [boardName, bmiBoardId]

/-- The lengths up to the name are in every file, whatever is cut behind them. -/
lemma boardFile_begins (id content : List UInt8) : ∃ rest, boardFile id content =
    magic ++ ([0, 0, 0, 0] ++ ([0x54, 0x2f, 0, 0] ++ ([0, 0, 0, 0] ++ ([0x24, 0, 0, 0] ++
      rest)))) := by
  refine ⟨(boardName id ++ ([1, 0, 0, 0] ++ [0x20, 0x2f, 0, 0])).take 44 ++ content.take maxLen, ?_⟩
  rw [boardFile, magicBinHdr_eq]
  rfl

/-- With one digit nothing is cut. -/
lemma boardFile_one (hid : id.length = 1) (hmax : content.length ≤ maxLen) :
    boardFile id content =
      magic ++ ([0, 0, 0, 0] ++ ([0x54, 0x2f, 0, 0] ++ ([0, 0, 0, 0] ++ ([0x24, 0, 0, 0] ++
        (boardName id ++ ([1, 0, 0, 0] ++ [0x20, 0x2f, 0, 0])))))) ++ content := by
  have hlen : (magicBinHdr id).length ≤ magicDefaultLen := by
    rw [magicBinHdr_eq]
    simp only [List.length_append, length_boardName, hid]
    decide
  rw [boardFile, List.take_of_length_le hlen, List.take_of_length_le hmax, magicBinHdr_eq]

/-- The lengths of the constants are those of one digit and 12064 bytes of data. -/
lemma boardFile_wellFormed_iff (hmax : content.length ≤ maxLen) :
    WellFormed id content (boardFile id content) ↔ id.length = 1 ∧ content.length = 12064 := by
  constructor
  · intro h
    obtain ⟨board, name, data, hfile, hboard, hname, hdata⟩ := h
    obtain ⟨boardLen, hboardLen, hboardVal, rfl⟩ := hboard
    obtain ⟨nameLen, hnameLen, hnameVal, rfl⟩ := hname
    obtain ⟨dataLen, hdataLen, -, rfl⟩ := hdata
    obtain ⟨rest, hbegin⟩ := boardFile_begins id content
    -- compare the two readings of the file field by field
    have hboard := List.append_cancel_left (List.append_cancel_left (hbegin.symm.trans hfile))
    obtain ⟨rfl, hinner⟩ := List.append_inj hboard hboardLen.symm
    rw [List.append_assoc] at hinner
    have hname := List.append_cancel_left hinner
    rw [List.append_assoc] at hname
    obtain ⟨rfl, -⟩ := List.append_inj hname hnameLen.symm
    simp only [List.length_append, length_boardName, hdataLen] at hboardVal hnameVal
    have h0 : leVal [0x54, 0x2f, 0, 0] = 12116 := by decide
    have h1 : leVal [0x24, 0, 0, 0] = 36 := by decide
    simp only [List.length_cons, List.length_nil] at hboardVal
    omega
  · intro h
    obtain ⟨hid, hcontent⟩ := h
    refine ⟨_, _, _, ?_, ⟨[0x54, 0x2f, 0, 0], rfl, ?_, rfl⟩, ⟨[0x24, 0, 0, 0], rfl, ?_, rfl⟩,
      ⟨[0x20, 0x2f, 0, 0], rfl, ?_, rfl⟩⟩
    · rw [boardFile_one hid hmax]
      simp only [List.append_assoc]
    · simp only [List.length_append, length_boardName, hid, hcontent]
      decide
    · rw [length_boardName, hid]
      decide
    · rw [hcontent]
      decide

/-- Every file with the container begins with the key, so the script leaves it alone. -/
lemma magicKey_prefix_boardFile (id content : List UInt8) : magicKey <+: boardFile id content := by
  obtain ⟨rest, hbegin⟩ := boardFile_begins id content
  rw [hbegin, magic, List.append_assoc]
  exact List.prefix_append _ _

end Container

/-! The files of a directory. -/

section Files

variable {dirPath name : List Char} {d : Disk} {id content : List UInt8}

/-- The file the script writes next to `name`. -/
def tmpFile (dirPath name : List Char) : List Char := dirPath ++ '/' :: name ++ ".tmp".toList

/-- The key is read and compared; what is not shorter and has another beginning gets the
container. -/
lemma key_check (hmin : 16 ≤ content.length) :
    (content.take magicKey.length).length = magicKey.length ∧
      (content.take magicKey.length = magicKey ↔ magicKey <+: content) := by
  refine ⟨List.length_take_of_le hmin, ?_⟩
  rw [List.prefix_iff_eq_take, eq_comm]

/-- Board data without the key is written with the container, and nothing else changes. -/
lemma updateFile_eq (hwanted : isWantedFiles (dirPath ++ '/' :: name) = true)
    (hcontent : d.content (dirPath ++ '/' :: name) = some content) (hmin : 16 ≤ content.length)
    (hkey : ¬ magicKey <+: content) (hwrite : d.writable (tmpFile dirPath name) = true) :
    updateFile dirPath (some id) d name =
      .ended (d.write (tmpFile dirPath name) (boardFile id content)) := by
  obtain ⟨hlen, heq⟩ := key_check hmin
  rw [tmpFile] at hwrite
  simp only [updateFile]
  rw [if_pos hwanted, hcontent]
  simp only
  rw [if_pos hlen, if_neg (fun h => hkey (heq.1 h)), Option.elim_some]
  simp only
  rw [if_pos hwrite, tmpFile]

/-- The file written is well formed exactly for ids of one digit and data of 12064 bytes. -/
theorem updateFile_wellFormed_iff (dirPath name : List Char) (d : Disk) (id content : List UInt8)
    (hwanted : isWantedFiles (dirPath ++ '/' :: name) = true)
    (hcontent : d.content (dirPath ++ '/' :: name) = some content) (hmin : 16 ≤ content.length)
    (hmax : content.length ≤ 1048576) (hkey : ¬ magicKey <+: content)
    (hwrite : d.writable (tmpFile dirPath name) = true) :
    (∃ d' file, updateFile dirPath (some id) d name = .ended d' ∧
        d'.content (tmpFile dirPath name) = some file ∧ WellFormed id content file) ↔
      id.length = 1 ∧ content.length = 12064 := by
  rw [updateFile_eq hwanted hcontent hmin hkey hwrite, ← boardFile_wellFormed_iff hmax]
  constructor
  · intro h
    obtain ⟨d', file, hd, hfile, hwf⟩ := h
    cases hd
    rw [Disk.content_write_self] at hfile
    cases hfile
    exact hwf
  · intro hwf
    exact ⟨_, boardFile id content, rfl, Disk.content_write_self .., hwf⟩

/-- A digit and a file of the size the header is made for. -/
theorem updateFile_wellFormed_four :
    ∃ d' file, updateFile ['.'] (some [0x34])
        ⟨fun _ => some (List.replicate 12064 0), fun _ => true⟩ "boardData_a.bin".toList = .ended d' ∧
      d'.content (tmpFile ['.'] "boardData_a.bin".toList) = some file ∧
      WellFormed [0x34] (List.replicate 12064 0) file := by
  have hkey : ¬ magicKey <+: List.replicate 12064 0 := by
    intro h
    have hmem : (0x51 : UInt8) ∈ List.replicate 12064 0 := h.subset (by decide)
    exact absurd (List.eq_of_mem_replicate hmem) (by decide)
  refine (updateFile_wellFormed_iff ['.'] "boardData_a.bin".toList _ [0x34] (List.replicate 12064 0)
    (by decide) rfl ?_ ?_ hkey rfl).2 ⟨rfl, List.length_replicate⟩
  · rw [List.length_replicate]
    decide
  · rw [List.length_replicate]
    decide

/-- A decimal number. -/
def IsDecimal (id : List UInt8) : Prop := id ≠ [] ∧ ∀ c ∈ id, 0x30 ≤ c ∧ c ≤ 0x39

/-- With the id 10 the header has 81 bytes, of which the last is lost, and the length of the name is
still that of one digit. -/
theorem updateFile_ten_not_wellFormed :
    ¬ ∀ (dirPath name : List Char) (d : Disk) (id content : List UInt8), IsDecimal id →
      isWantedFiles (dirPath ++ '/' :: name) = true →
      d.content (dirPath ++ '/' :: name) = some content → 16 ≤ content.length →
      content.length ≤ 1048576 → ¬ magicKey <+: content →
      d.writable (tmpFile dirPath name) = true →
      ∃ d' file, updateFile dirPath (some id) d name = .ended d' ∧
        d'.content (tmpFile dirPath name) = some file ∧ WellFormed id content file := by
  intro h
  obtain ⟨d', file, hd, hfile, hwf⟩ := h ['.'] "boardData_a.bin".toList
    ⟨fun _ => some (List.replicate 16 0), fun _ => true⟩ [0x31, 0x30] (List.replicate 16 0)
    ⟨by decide, by simp⟩ (by decide) rfl (by decide) (by decide) (by decide) rfl
  rw [updateFile_eq (by decide) rfl (by decide) (by decide) rfl] at hd
  cases hd
  rw [Disk.content_write_self] at hfile
  cases hfile
  exact absurd ((boardFile_wellFormed_iff (by decide)).1 hwf).1 (by decide)

/-- The disk when the script ends, in whichever way. -/
def Outcome.disk : Outcome → Disk
  | .ended d => d
  | .died _ d => d

/-- The ids of the table have one digit. -/
lemma length_getBmiBdId {file : List Char} (h : getBmiBdId file = .ok id) : id.length = 1 := by
  rw [getBmiBdId] at h
  split at h
  · split at h
    · cases h
      rfl
    · split at h
      · cases h
        rfl
      · cases h
  · split at h
    · cases h
      rfl
    · cases h

/-- A turn of the loop leaves the disk alone or puts the container before data without the key. -/
lemma updateFile_cases (dirPath : List Char) (bmiBdId : Option (List UInt8)) (d : Disk)
    (name : List Char) :
    (updateFile dirPath bmiBdId d name).disk = d ∨
      ∃ id content, d.content (dirPath ++ '/' :: name) = some content ∧ 16 ≤ content.length ∧
        ¬ magicKey <+: content ∧ (bmiBdId = some id ∨ id.length = 1) ∧
        (updateFile dirPath bmiBdId d name).disk =
          d.write (tmpFile dirPath name) (boardFile id content) := by
  simp only [updateFile]
  -- the tests of the loop in their order; only the last one writes
  split
  · split
    · exact .inl rfl
    · rename_i content hcontent
      split
      · rename_i hlen
        have hmin : 16 ≤ content.length := by
          rw [List.length_take] at hlen
          exact Nat.le_trans (Nat.le_of_eq hlen.symm) (Nat.min_le_right ..)
        split
        · exact .inl rfl
        · rename_i hkey
          have hno : ¬ magicKey <+: content := fun h => hkey ((key_check hmin).2.2 h)
          split
          · exact .inl rfl
          · rename_i id hid
            split
            · refine .inr ⟨id, content, hcontent, hmin, hno, ?_, rfl⟩
              cases bmiBdId with
              | none => exact .inr (length_getBmiBdId hid)
              | some id' =>
                cases hid
                exact .inl rfl
            · exact .inl rfl
      · exact .inl rfl
  · exact .inl rfl

/-- All board data without the key has the size the header is made for. -/
def Disk.Sized (d : Disk) : Prop :=
  ∀ p c, d.content p = some c → 16 ≤ c.length → ¬ magicKey <+: c → c.length = 12064

/-- Every file that differs between two disks is well formed on the second. -/
def Updated (d d' : Disk) : Prop :=
  ∀ p, d'.content p = d.content p ∨
    ∃ id content file, d'.content p = some file ∧ WellFormed id content file

lemma Updated.trans {d₁ d₂ d₃ : Disk} (h : Updated d₁ d₂) (h' : Updated d₂ d₃) : Updated d₁ d₃ := by
  intro p
  rcases h' p with hp | hp
  · rw [hp]
    exact h p
  · exact .inr hp

lemma updateFile_updated {bmiBdId : Option (List UInt8)} (dirPath name : List Char)
    (hid : ∀ id, bmiBdId = some id → id.length = 1) (hd : d.Sized) :
    Updated d (updateFile dirPath bmiBdId d name).disk ∧
      (updateFile dirPath bmiBdId d name).disk.Sized := by
  rcases updateFile_cases dirPath bmiBdId d name with h | ⟨id, content, hcontent, hmin, hkey, hlen, h⟩
  · rw [h]
    exact ⟨fun p => .inl rfl, hd⟩
  · rw [h]
    have hsize := hd _ _ hcontent hmin hkey
    have hone : id.length = 1 := hlen.elim (hid id) fun h => h
    have hwf : WellFormed id content (boardFile id content) := by
      rw [boardFile_wellFormed_iff]
      · exact ⟨hone, hsize⟩
      · rw [hsize]
        decide
    constructor
    · intro p
      by_cases hp : p = tmpFile dirPath name
      · subst hp
        exact .inr ⟨id, content, _, Disk.content_write_self .., hwf⟩
      · exact .inl (Disk.content_write_of_ne d _ hp)
    · -- what was written has the key and does not count as board data any more
      intro p c hc hmin' hkey'
      by_cases hp : p = tmpFile dirPath name
      · subst hp
        rw [Disk.content_write_self] at hc
        cases hc
        exact absurd (magicKey_prefix_boardFile id content) hkey'
      · rw [Disk.content_write_of_ne d _ hp] at hc
        exact hd p c hc hmin' hkey'

/-- In every run with an id of one digit, or none, over board data of the right size, all files the
script writes are well formed. -/
theorem updateFiles_updated {bmiBdId : Option (List UInt8)} (fileList : List (List Char))
    (hid : ∀ id, bmiBdId = some id → id.length = 1) (hd : d.Sized) :
    Updated d (updateFiles dirPath bmiBdId d fileList).disk := by
  induction fileList generalizing d with
  | nil => exact fun p => .inl rfl
  | cons name names ih =>
    obtain ⟨hstep, hsized⟩ := updateFile_updated dirPath name hid hd
    rw [updateFiles]
    cases ho : updateFile dirPath bmiBdId d name with
    | died message d' =>
      rw [ho] at hstep
      exact hstep
    | ended d' =>
      rw [ho] at hstep hsized
      exact hstep.trans (ih hsized)

end Files

end CcodeTest.BoardFile
