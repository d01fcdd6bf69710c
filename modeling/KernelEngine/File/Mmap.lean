import KernelEngine.Rust.Text

namespace KernelEngine.File
open Rust

/-- The text of the `std::io::Error` or `nix` error of a failed system call. -/
abbrev OsError := Str

/-- An open file: the length its metadata give, what mapping that many bytes of it
yields, and whether it still reaches that far when they are copied. A directory opens
and has a length, but cannot be mapped. -/
structure OpenFile where
  len : Except OsError ℕ
  mmap : (n : ℕ) → Except OsError { data : Bytes // data.length = n }
  backed : Bool

/-- The file system as one request sees it. Nothing ties the two calls together:
a file may vanish after `exists`. -/
structure Filesystem where
  exist : Str → Bool
  openFile : Str → Except OsError OpenFile

/-- A mapping is not a copy: the bytes stay in the file, and touching those it has
lost since raises `SIGBUS`. -/
structure MmapFile where
  slice : Bytes
  len : ℕ
  backed : Bool
  len_eq : slice.length = len
  len_ne : len ≠ 0

namespace MmapFile

/-- `MmapFile::new`. -/
def new (fs : Filesystem) (path : Str) : Except Anyhow MmapFile := do
  let file ← (fs.openFile path).mapError fun e => "Failed to open file: ".toList ++ e
  let len ← file.len.mapError fun e => "Failed to get file metadata: ".toList ++ e
  if hlen : len = 0 then throw "Cannot mmap empty file".toList
  else
    let data ← (file.mmap len).mapError fun e => "mmap failed: ".toList ++ e
    return ⟨data.val, len, file.backed, data.property, hlen⟩

/-- `MmapFile::as_slice`. -/
def asSlice (m : MmapFile) : Bytes := m.slice

end MmapFile

/-- The file at the path can be opened and mapped, and is not empty. -/
def Mappable (fs : Filesystem) (path : Str) : Prop :=
  ∃ file len data, fs.openFile path = .ok file ∧ file.len = .ok len ∧ len ≠ 0 ∧
    file.mmap len = .ok data

/-- Whoever opens the file at the path finds it backed: nobody cuts it short between
mapping and copying. -/
def Backed (fs : Filesystem) (path : Str) : Prop :=
  ∀ file, fs.openFile path = .ok file → file.backed = true

theorem mmapFile_new_of_mmap {fs : Filesystem} {path : Str} {file : OpenFile} {len : ℕ}
    {data : { data : Bytes // data.length = len }} (hopen : fs.openFile path = .ok file)
    (hlen : file.len = .ok len) (h0 : len ≠ 0) (hmap : file.mmap len = .ok data) :
    MmapFile.new fs path = .ok ⟨data.val, len, file.backed, data.property, h0⟩ := by
  simp only [MmapFile.new, hopen, Except.mapError, bind, Except.bind, hlen, h0, hmap, pure,
    Except.pure, ↓reduceDIte]

theorem mmapFile_new_ok_iff {fs : Filesystem} {path : Str} :
    (∃ m, MmapFile.new fs path = .ok m) ↔ Mappable fs path := by
  constructor
  · rintro ⟨m, h⟩
    obtain ⟨file, hopen, h⟩ := bind_eq_ok.mp h
    obtain ⟨len, hlen, h⟩ := bind_eq_ok.mp h
    rw [mapError_eq_ok] at hopen hlen
    split at h
    case isTrue => cases h
    case isFalse h0 =>
      obtain ⟨data, hmap, -⟩ := bind_eq_ok.mp h
      rw [mapError_eq_ok] at hmap
      exact ⟨file, len, data, hopen, hlen, h0, hmap⟩
  · rintro ⟨file, len, data, hopen, hlen, h0, hmap⟩
    exact ⟨_, mmapFile_new_of_mmap hopen hlen h0 hmap⟩

/-- The mapping is backed exactly when the file is. -/
theorem mmapFile_backed_iff {fs : Filesystem} {path : Str} {m : MmapFile}
    (h : MmapFile.new fs path = .ok m) : m.backed = true ↔ Backed fs path := by
  obtain ⟨file, hopen, h⟩ := bind_eq_ok.mp h
  obtain ⟨len, -, h⟩ := bind_eq_ok.mp h
  rw [mapError_eq_ok] at hopen
  split at h
  case isTrue => cases h
  case isFalse =>
    obtain ⟨data, -, h⟩ := bind_eq_ok.mp h
    obtain rfl := Except.ok.inj h
    simp [Backed, hopen]

/-- A file of the given contents, which stays as it is. -/
def regular (data : Bytes) : OpenFile where
  len := .ok data.length
  mmap n := if h : data.length = n then .ok ⟨data, h⟩ else .error "EINVAL".toList
  backed := true

theorem mappable_regular {fs : Filesystem} {path : Str} {data : Bytes}
    (hopen : fs.openFile path = .ok (regular data)) (hdata : data ≠ []) : Mappable fs path :=
  ⟨regular data, data.length, ⟨data, rfl⟩, hopen, rfl, by simpa using hdata, dif_pos rfl⟩

/-- A file system with one readable file. -/
def onlyFile (path : Str) (data : Bytes) : Filesystem where
  exist p := p = path
  openFile p := if p = path then .ok (regular data) else .error "ENOENT".toList

theorem onlyFile_exist_iff {path p : Str} {data : Bytes} :
    (onlyFile path data).exist p = true ↔ p = path :=
  decide_eq_true_iff

theorem onlyFile_openFile_ok_iff {path p : Str} {data : Bytes} {file : OpenFile} :
    (onlyFile path data).openFile p = .ok file ↔ p = path ∧ regular data = file := by
  change (if p = path then Except.ok (regular data) else _) = _ ↔ _
  split_ifs with h <;> simp [h]

theorem mappable_onlyFile_iff {path p : Str} {data : Bytes} (hdata : data ≠ []) :
    Mappable (onlyFile path data) p ↔ p = path := by
  constructor
  · rintro ⟨file, -, -, hopen, -⟩
    exact (onlyFile_openFile_ok_iff.mp hopen).1
  · rintro rfl
    exact mappable_regular (if_pos rfl) hdata

theorem backed_onlyFile (path p : Str) (data : Bytes) : Backed (onlyFile path data) p := by
  intro file hfile
  obtain ⟨-, rfl⟩ := onlyFile_openFile_ok_iff.mp hfile
  rfl

end KernelEngine.File
