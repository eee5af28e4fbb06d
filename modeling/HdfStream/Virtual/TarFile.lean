/-
# Tar files

The model of `TarFile.java`.  `initTarFile` computes the size of the archive of a directory, which
is sent as Content-Length, and `write` writes the archive and checks that it has this size.  The
two ask for the header of a file in different words: the one with the length rounded up to a
multiple of the record size, the other with the length itself.

How many records `putArchiveEntry` emits for a name, a size and a modification time is a parameter;
`FixedHeaders` says that there is at least one, and that the size plays no role as long as it fits
into the field of the header.  It no longer fits from 8 GiB on, and rounding up can get there.
-/
import HdfStream.Lib.JavaArray
import HdfStream.Virtual.Model
import Mathlib.Algebra.BigOperators.Group.List.Basic
import Mathlib.Algebra.Order.Group.Int

namespace HdfStream.Virtual

open Java

/-! ## 1. The archive stream -/

/-- `RECORD_SIZE`. -/
def recordSize : Nat := 512

/-- `BLOCK_SIZE`. -/
def blockSize : Nat := 20 * 512

/-- The largest size that fits into the field of a header. -/
def maxSize : Int := 8589934591

/-- `n` rounded up to a multiple, for a stream. -/
def padded (unit n : Nat) : Nat := n + (unit - n % unit) % unit

/-- A `TarArchiveOutputStream`: the bytes it has written, and the size and the bytes so far of the
entry that is open. -/
structure TarArchiveOutputStream where
  byteCount : Nat
  currSize : Int
  currBytes : Nat

/-- What leaves `write` by an exception. -/
inductive TarException where
  /-- `IOException`. -/
  | io
  /-- `RuntimeException`. -/
  | runtime (message : JString)
deriving DecidableEq

namespace TarArchiveOutputStream

/-- `putArchiveEntry`. -/
def putArchiveEntry (records : Nat) (size : Int) (st : TarArchiveOutputStream) :
    TarArchiveOutputStream :=
  { byteCount := st.byteCount + records * recordSize, currSize := size, currBytes := 0 }

/-- `write`: an entry takes no more bytes than its size. -/
def write (st : TarArchiveOutputStream) (nread : Nat) :
    Except TarException TarArchiveOutputStream :=
  if st.currSize < st.currBytes + nread then .error .io
  else .ok { st with byteCount := st.byteCount + nread, currBytes := st.currBytes + nread }

/-- `closeArchiveEntry`: an entry has no fewer bytes than its size, and ends with a record. -/
def closeArchiveEntry (st : TarArchiveOutputStream) :
    Except TarException TarArchiveOutputStream :=
  if st.currBytes < st.currSize then .error .io
  else
    .ok { st with
      byteCount := st.byteCount + (recordSize - st.currBytes % recordSize) % recordSize }

/-- `finish`: two empty records, and the rest of the block. -/
def finish (st : TarArchiveOutputStream) : TarArchiveOutputStream :=
  { st with byteCount := padded blockSize (st.byteCount + 2 * recordSize) }

end TarArchiveOutputStream

/-! ## 2. `TarFile` -/

/-- A `TarFile`. -/
structure TarFile where
  files : List (JString × VirtualFile)
  nrBytes : Int
  pathPrefix : JString

section

variable (records : JString → Int → Int → Nat)

/-- A `long` rounded up to a multiple. -/
def roundUp (unit n : Int) : Int :=
  if n.tmod unit ≠ 0 then wrapLong (wrapLong (n.tdiv unit * unit) + unit) else n

/-- `getFileHeaderSize`. -/
def getFileHeaderSize (filename : JString) (lastModified fileSize : Int) : Int :=
  wrapLong (records filename fileSize lastModified * recordSize)

/-- The loop of `initTarFile` over the files. -/
def addFileSize (pathPrefix : JString) (nrBytes : Int) (entry : JString × VirtualFile) : Int :=
  let fileSize := roundUp recordSize entry.2.length.toInt
  let headerSize :=
    getFileHeaderSize records (pathPrefix ++ entry.1) entry.2.lastModified.toInt fileSize
  wrapLong (nrBytes + wrapLong (fileSize + headerSize))

/-- `initTarFile`. -/
def initTarFile (pathPrefix : JString) (vdir : VirtualDirectory) (inRole : JString → Bool) :
    TarFile :=
  let files := getAllFiles inRole vdir
  let nrBytes := files.foldl (addFileSize records pathPrefix) 0
  { files := files
    nrBytes := roundUp blockSize (wrapLong (nrBytes + 2 * recordSize))
    pathPrefix := pathPrefix }

/-- One file of `write`; `read` is what the calls of `read` on the file return. -/
def writeEntry (read : JString → List Nat) (pathPrefix : JString)
    (tarstream : TarArchiveOutputStream) (entry : JString × VirtualFile) :
    Except TarException TarArchiveOutputStream :=
  let size := entry.2.length.toInt
  let tarstream := tarstream.putArchiveEntry
    (records (pathPrefix ++ entry.1) size entry.2.lastModified.toInt) size
  match (read entry.2.filesystemPath).foldlM TarArchiveOutputStream.write tarstream with
  | .error e => .error e
  | .ok tarstream => tarstream.closeArchiveEntry

/-- `write`; the result is the number of bytes written. -/
def TarFile.write (read : JString → List Nat) (this : TarFile) : Except TarException Nat :=
  match this.files.foldlM (writeEntry records read this.pathPrefix)
    { byteCount := 0, currSize := 0, currBytes := 0 } with
  | .error e => .error e
  | .ok tarstream =>
    let byteCount := tarstream.finish.byteCount
    if wrapLong byteCount ≠ this.nrBytes then
      .error (.runtime (lit "Unexpected number of bytes written"))
    else .ok byteCount

end

/-! ## 3. Records -/

/-- **What the size does to a header**: nothing, while it fits into its field. -/
structure FixedHeaders (records : JString → Int → Int → Nat) : Prop where
  pos : ∀ name size lastModified, 1 ≤ records name size lastModified
  fixed : ∀ name size size' lastModified, 0 ≤ size → size ≤ maxSize → 0 ≤ size' →
    size' ≤ maxSize → records name size lastModified = records name size' lastModified

/-- The records of a header. -/
def headerRecords (records : JString → Int → Int → Nat) (pathPrefix : JString) (size : Int)
    (entry : JString × VirtualFile) : Int :=
  records (pathPrefix ++ entry.1) size entry.2.lastModified.toInt

/-- A length rounded up to a multiple of the record size. -/
def roundedLength (entry : JString × VirtualFile) : Int :=
  (entry.2.length.toInt + 511) / 512 * 512

/-- The records of a file in the archive: of its header, and of its contents. -/
def fileRecords (records : JString → Int → Int → Nat) (pathPrefix : JString)
    (entry : JString × VirtualFile) : Int :=
  headerRecords records pathPrefix entry.2.length.toInt entry +
    (entry.2.length.toInt + 511) / 512

/-- The additional records of the header for the rounded length.  There are none unless the length
is above 8589934080 and not a multiple of 512. -/
def extraRecords (records : JString → Int → Int → Nat) (pathPrefix : JString)
    (entry : JString × VirtualFile) : Int :=
  if entry.2.length.toInt % 512 ≠ 0 ∧ 8589934080 < entry.2.length.toInt then
    headerRecords records pathPrefix (roundedLength entry) entry -
      headerRecords records pathPrefix entry.2.length.toInt entry
  else 0

/-- The blocks that so many records take. -/
def blocks (n : Int) : Int := (n + 19) / 20

variable {records : JString → Int → Int → Nat} {pathPrefix : JString}

theorem roundUp_eq {unit n : Int} (hunit : 0 < unit) (hn : 0 ≤ n)
    (hlt : n + unit < 9223372036854775808) : roundUp unit n = (n + (unit - 1)) / unit * unit := by
  have hmod : n.tmod unit = n % unit := Int.tmod_eq_emod_of_nonneg hn
  have hdiv : n.tdiv unit = n / unit := Int.tdiv_eq_ediv_of_nonneg hn
  have heq := Int.mul_ediv_add_emod n unit
  have hlow := Int.emod_nonneg n (by omega : unit ≠ 0)
  have hhigh := Int.emod_lt_of_pos n hunit
  rw [Int.mul_comm] at heq
  rw [roundUp, hmod, hdiv]
  have hpos : 0 ≤ n / unit * unit := Int.mul_nonneg (Int.ediv_nonneg hn (by omega)) (by omega)
  by_cases hzero : n % unit = 0
  · have hquot : (n + (unit - 1)) / unit = n / unit := by
      have hadd : n + (unit - 1) = unit - 1 + n / unit * unit := by omega
      rw [hadd, Int.add_mul_ediv_right _ _ (by omega),
        Int.ediv_eq_zero_of_lt (by omega) (by omega), Int.zero_add]
    rw [if_neg (not_not.mpr hzero), hquot]
    omega
  · have hquot : (n + (unit - 1)) / unit = n / unit + 1 := by
      have hadd : n + (unit - 1) = n % unit - 1 + (n / unit + 1) * unit := by
        rw [Int.add_mul]
        omega
      rw [hadd, Int.add_mul_ediv_right _ _ (by omega),
        Int.ediv_eq_zero_of_lt (by omega) (by omega), Int.zero_add]
    have hwrap : wrapLong (n / unit * unit) = n / unit * unit :=
      wrapLong_eq (by omega) (by omega)
    rw [if_pos hzero, hquot, hwrap, wrapLong_eq (by omega) (by omega), Int.add_mul, Int.one_mul]

theorem headerRecords_pos (h : FixedHeaders records) (size : Int)
    (entry : JString × VirtualFile) : 1 ≤ headerRecords records pathPrefix size entry := by
  have := h.pos (pathPrefix ++ entry.1) size entry.2.lastModified.toInt
  rw [headerRecords]
  omega

/-- The header for the rounded length. -/
theorem headerRecords_rounded (h : FixedHeaders records) {entry : JString × VirtualFile}
    (hlen : 0 ≤ entry.2.length.toInt) :
    headerRecords records pathPrefix (roundedLength entry) entry =
      headerRecords records pathPrefix entry.2.length.toInt entry +
        extraRecords records pathPrefix entry := by
  rw [extraRecords]
  split
  · omega
  · rename_i hsmall
    rw [Int.add_zero]
    by_cases halign : entry.2.length.toInt % 512 = 0
    · have heq : roundedLength entry = entry.2.length.toInt := by
        rw [roundedLength]
        omega
      rw [heq]
    · rw [headerRecords, headerRecords, roundedLength]
      exact congrArg _ (h.fixed _ _ _ _ (by omega) (by rw [maxSize]; omega) hlen
        (by rw [maxSize]; omega))

/-- What `initTarFile` adds for a file. -/
def announcedBytes (records : JString → Int → Int → Nat) (pathPrefix : JString)
    (entry : JString × VirtualFile) : Int :=
  512 * (fileRecords records pathPrefix entry + extraRecords records pathPrefix entry)

theorem announcedBytes_eq (h : FixedHeaders records) {entry : JString × VirtualFile}
    (hlen : 0 ≤ entry.2.length.toInt) :
    announcedBytes records pathPrefix entry = roundedLength entry +
      512 * headerRecords records pathPrefix (roundedLength entry) entry := by
  rw [announcedBytes, fileRecords, headerRecords_rounded h hlen, roundedLength]
  omega

theorem roundedLength_nonneg {entry : JString × VirtualFile} (hlen : 0 ≤ entry.2.length.toInt) :
    0 ≤ roundedLength entry := by
  rw [roundedLength]
  omega

theorem announcedBytes_nonneg (h : FixedHeaders records) {entry : JString × VirtualFile}
    (hlen : 0 ≤ entry.2.length.toInt) : 0 ≤ announcedBytes records pathPrefix entry := by
  have hpos := @headerRecords_pos records pathPrefix h (roundedLength entry) entry
  have hround := roundedLength_nonneg hlen
  rw [announcedBytes_eq h hlen]
  omega

/-! ## 4. The announced size -/

theorem addFileSize_eq (h : FixedHeaders records) {entry : JString × VirtualFile}
    (hlen : 0 ≤ entry.2.length.toInt) {nrBytes : Int} (hnr : 0 ≤ nrBytes)
    (hlt : nrBytes + announcedBytes records pathPrefix entry < 9223372036854775808) :
    addFileSize records pathPrefix nrBytes entry =
      nrBytes + announcedBytes records pathPrefix entry := by
  have hpos := @headerRecords_pos records pathPrefix h (roundedLength entry) entry
  have hround := roundedLength_nonneg hlen
  rw [announcedBytes_eq h hlen] at hlt ⊢
  have hlength : entry.2.length.toInt ≤ roundedLength entry := by
    rw [roundedLength]
    omega
  have hfile : roundUp recordSize entry.2.length.toInt = roundedLength entry :=
    roundUp_eq (by decide) hlen (by rw [recordSize]; omega)
  have hheader : getFileHeaderSize records (pathPrefix ++ entry.1) entry.2.lastModified.toInt
      (roundedLength entry) = 512 * headerRecords records pathPrefix (roundedLength entry)
        entry := by
    rw [getFileHeaderSize, headerRecords, recordSize]
    rw [headerRecords] at hpos hlt
    rw [wrapLong_eq (by omega) (by omega)]
    omega
  rw [addFileSize, hfile]
  rw [hheader]
  have hwrap : wrapLong (roundedLength entry +
      512 * headerRecords records pathPrefix (roundedLength entry) entry) = roundedLength entry +
        512 * headerRecords records pathPrefix (roundedLength entry) entry :=
    wrapLong_eq (by omega) (by omega)
  rw [hwrap, wrapLong_eq (by omega) (by omega)]

/-- The sum of what `initTarFile` adds. -/
theorem sum_announcedBytes_nonneg (h : FixedHeaders records)
    {files : List (JString × VirtualFile)} (hlen : ∀ e ∈ files, 0 ≤ e.2.length.toInt) :
    0 ≤ (files.map (announcedBytes records pathPrefix)).sum := by
  induction files with
  | nil => exact Int.le_refl 0
  | cons entry files ih =>
    have hentry := @announcedBytes_nonneg records pathPrefix h entry (hlen entry List.mem_cons_self)
    have hfiles := ih fun e he => hlen e (List.mem_cons_of_mem _ he)
    rw [List.map_cons, List.sum_cons]
    omega

theorem foldl_addFileSize (h : FixedHeaders records) {files : List (JString × VirtualFile)}
    (hlen : ∀ e ∈ files, 0 ≤ e.2.length.toInt) {nrBytes : Int} (hnr : 0 ≤ nrBytes)
    (hlt : nrBytes + (files.map (announcedBytes records pathPrefix)).sum < 9223372036854775808) :
    files.foldl (addFileSize records pathPrefix) nrBytes =
      nrBytes + (files.map (announcedBytes records pathPrefix)).sum := by
  induction files generalizing nrBytes with
  | nil => exact (Int.add_zero nrBytes).symm
  | cons entry files ih =>
    have hentry := hlen entry List.mem_cons_self
    have hfiles : ∀ e ∈ files, 0 ≤ e.2.length.toInt := fun e he =>
      hlen e (List.mem_cons_of_mem _ he)
    have hsum := @sum_announcedBytes_nonneg records pathPrefix h files hfiles
    have hnonneg := @announcedBytes_nonneg records pathPrefix h entry hentry
    rw [List.map_cons, List.sum_cons] at hlt ⊢
    rw [List.foldl_cons, addFileSize_eq h hentry hnr (by omega), ih hfiles (by omega) (by omega)]
    omega

/-! ## 5. The written bytes -/

/-- The file on disk has the length it is configured with. -/
def RealLength (read : JString → List Nat) (entry : JString × VirtualFile) : Prop :=
  ((read entry.2.filesystemPath).sum : Int) = entry.2.length.toInt

theorem foldlM_write {reads : List Nat} {st : TarArchiveOutputStream}
    (h : ((st.currBytes + reads.sum : Nat) : Int) ≤ st.currSize) :
    reads.foldlM TarArchiveOutputStream.write st =
      .ok { st with
        byteCount := st.byteCount + reads.sum, currBytes := st.currBytes + reads.sum } := by
  induction reads generalizing st with
  | nil => rfl
  | cons nread reads ih =>
    rw [List.sum_cons] at h
    have hwrite : st.write nread = .ok { st with
        byteCount := st.byteCount + nread, currBytes := st.currBytes + nread } :=
      if_neg (by omega)
    rw [List.foldlM_cons, hwrite]
    refine (ih (by dsimp only; omega)).trans ?_
    dsimp only
    rw [List.sum_cons, Nat.add_assoc, Nat.add_assoc]

/-- **A file takes the records of its header and of its contents.** -/
theorem writeEntry_eq {read : JString → List Nat} {entry : JString × VirtualFile}
    (hreal : RealLength read entry) (st : TarArchiveOutputStream) :
    ∃ st', writeEntry records read pathPrefix st entry = .ok st' ∧
      (st'.byteCount : Int) = st.byteCount + 512 * fileRecords records pathPrefix entry := by
  rw [RealLength] at hreal
  rw [writeEntry]
  rw [foldlM_write (by
    dsimp only [TarArchiveOutputStream.putArchiveEntry]
    omega)]
  dsimp only [TarArchiveOutputStream.putArchiveEntry]
  rw [TarArchiveOutputStream.closeArchiveEntry, if_neg (by
    dsimp only
    omega)]
  refine ⟨_, rfl, ?_⟩
  simp only [fileRecords, headerRecords, recordSize, Nat.zero_add]
  omega

theorem foldlM_writeEntry {read : JString → List Nat} {files : List (JString × VirtualFile)}
    (hreal : ∀ e ∈ files, RealLength read e) (st : TarArchiveOutputStream) :
    ∃ st', files.foldlM (writeEntry records read pathPrefix) st = .ok st' ∧
      (st'.byteCount : Int) =
        st.byteCount + 512 * (files.map (fileRecords records pathPrefix)).sum := by
  induction files generalizing st with
  | nil => exact ⟨st, rfl, (Int.add_zero _).symm⟩
  | cons entry files ih =>
    obtain ⟨st₁, hentry, hcount⟩ :=
      @writeEntry_eq records pathPrefix read entry (hreal entry List.mem_cons_self) st
    obtain ⟨st', hfiles, hcount'⟩ := ih (fun e he => hreal e (List.mem_cons_of_mem _ he)) st₁
    refine ⟨st', ?_, ?_⟩
    · rw [List.foldlM_cons, hentry]
      exact hfiles
    · rw [List.map_cons, List.sum_cons]
      omega

theorem padded_eq (n : Nat) : (padded blockSize (512 * n) : Int) = 10240 * blocks n := by
  rw [padded, blockSize, blocks]
  omega

/-! ## 6. The archive -/

/-- The bytes of all files. -/
def totalLength (files : List (JString × VirtualFile)) : Int :=
  (files.map fun e => e.2.length.toInt).sum

/-- The bytes of all headers, when the header of a file is for `size`. -/
def totalHeaders (records : JString → Int → Int → Nat) (pathPrefix : JString)
    (size : JString × VirtualFile → Int) (files : List (JString × VirtualFile)) : Int :=
  (files.map fun e => 512 * headerRecords records pathPrefix (size e) e).sum

/-- The records `write` emits: those of the files, and two empty ones. -/
def writtenRecords (records : JString → Int → Int → Nat) (pathPrefix : JString)
    (files : List (JString × VirtualFile)) : Int :=
  (files.map (fileRecords records pathPrefix)).sum + 2

/-- The additional records of the headers for the rounded lengths. -/
def totalExtra (records : JString → Int → Int → Nat) (pathPrefix : JString)
    (files : List (JString × VirtualFile)) : Int :=
  (files.map (extraRecords records pathPrefix)).sum

theorem sum_announcedBytes (files : List (JString × VirtualFile)) :
    (files.map (announcedBytes records pathPrefix)).sum + 1024 =
      512 * (writtenRecords records pathPrefix files + totalExtra records pathPrefix files) := by
  rw [writtenRecords, totalExtra]
  induction files with
  | nil => rfl
  | cons entry files ih =>
    simp only [List.map_cons, List.sum_cons]
    rw [announcedBytes]
    omega

/-- The contents and the padding are no longer than the lengths and the headers together. -/
theorem sum_records_le (h : FixedHeaders records) {size : JString × VirtualFile → Int}
    {files : List (JString × VirtualFile)} :
    (files.map fun e => 512 * (headerRecords records pathPrefix (size e) e +
        (e.2.length.toInt + 511) / 512)).sum ≤
      totalLength files + 2 * totalHeaders records pathPrefix size files := by
  rw [totalLength, totalHeaders]
  induction files with
  | nil => exact Int.le_refl 0
  | cons entry files ih =>
    have hpos := @headerRecords_pos records pathPrefix h (size entry) entry
    simp only [List.map_cons, List.sum_cons]
    omega

theorem sum_announcedBytes_le (h : FixedHeaders records) {files : List (JString × VirtualFile)}
    (hlen : ∀ e ∈ files, 0 ≤ e.2.length.toInt) :
    (files.map (announcedBytes records pathPrefix)).sum ≤
      totalLength files + 2 * totalHeaders records pathPrefix roundedLength files := by
  refine Int.le_trans (Int.le_of_eq (congrArg List.sum (List.map_congr_left fun e he => ?_)))
    (sum_records_le h)
  rw [announcedBytes_eq h (hlen e he), roundedLength]
  omega

theorem sum_fileRecords_nonneg (h : FixedHeaders records) {files : List (JString × VirtualFile)}
    (hlen : ∀ e ∈ files, 0 ≤ e.2.length.toInt) :
    0 ≤ (files.map (fileRecords records pathPrefix)).sum := by
  induction files with
  | nil => exact Int.le_refl 0
  | cons entry files ih =>
    have hpos := @headerRecords_pos records pathPrefix h entry.2.length.toInt entry
    have hentry := hlen entry List.mem_cons_self
    have hfiles := ih fun e he => hlen e (List.mem_cons_of_mem _ he)
    rw [List.map_cons, List.sum_cons, fileRecords]
    omega

theorem sum_fileRecords_le (h : FixedHeaders records) (files : List (JString × VirtualFile)) :
    512 * (files.map (fileRecords records pathPrefix)).sum ≤
      totalLength files +
        2 * totalHeaders records pathPrefix (fun e => e.2.length.toInt) files := by
  refine Int.le_trans (Int.le_of_eq ?_) (sum_records_le h)
  induction files with
  | nil => rfl
  | cons entry files ih =>
    rw [List.map_cons, List.sum_cons, Int.mul_add, ih, List.map_cons, List.sum_cons, fileRecords]

/-- The size that is announced. -/
theorem nrBytes_eq (h : FixedHeaders records) {vdir : VirtualDirectory} {inRole : JString → Bool}
    (hlen : ∀ e ∈ getAllFiles inRole vdir, 0 ≤ e.2.length.toInt)
    (hsum : totalLength (getAllFiles inRole vdir) < 2 ^ 62)
    (hheaders : totalHeaders records pathPrefix roundedLength (getAllFiles inRole vdir) < 2 ^ 60) :
    (initTarFile records pathPrefix vdir inRole).nrBytes =
      10240 * blocks (writtenRecords records pathPrefix (getAllFiles inRole vdir) +
        totalExtra records pathPrefix (getAllFiles inRole vdir)) := by
  have hnonneg := @sum_announcedBytes_nonneg records pathPrefix h _ hlen
  have hle := @sum_announcedBytes_le records pathPrefix h _ hlen
  have hrecords := @sum_announcedBytes records pathPrefix (getAllFiles inRole vdir)
  have hfold := @foldl_addFileSize records pathPrefix h _ hlen 0 (Int.le_refl 0) (by omega)
  rw [Int.zero_add] at hfold
  have hend : wrapLong ((getAllFiles inRole vdir).foldl (addFileSize records pathPrefix) 0 +
      2 * recordSize) =
      ((getAllFiles inRole vdir).map (announcedBytes records pathPrefix)).sum + 1024 := by
    rw [hfold, recordSize]
    exact wrapLong_eq (by omega) (by omega)
  rw [initTarFile]
  dsimp only
  rw [hend, roundUp_eq (by decide) (by omega) (by rw [blockSize]; omega), hrecords, blocks,
    blockSize]
  omega

/-- What is written. -/
theorem write_bytes (h : FixedHeaders records) {vdir : VirtualDirectory} {inRole : JString → Bool}
    {read : JString → List Nat} (hlen : ∀ e ∈ getAllFiles inRole vdir, 0 ≤ e.2.length.toInt)
    (hsum : totalLength (getAllFiles inRole vdir) < 2 ^ 62)
    (hheaders : totalHeaders records pathPrefix (fun e => e.2.length.toInt)
      (getAllFiles inRole vdir) < 2 ^ 60)
    (hreal : ∀ e ∈ getAllFiles inRole vdir, RealLength read e) :
    ∃ n : Nat, (n : Int) =
        10240 * blocks (writtenRecords records pathPrefix (getAllFiles inRole vdir)) ∧
      (initTarFile records pathPrefix vdir inRole).write records read =
        if (n : Int) ≠ (initTarFile records pathPrefix vdir inRole).nrBytes then
          .error (.runtime (lit "Unexpected number of bytes written"))
        else .ok n := by
  obtain ⟨st, hfiles, hcount⟩ := @foldlM_writeEntry records pathPrefix read _ hreal
    { byteCount := 0, currSize := 0, currBytes := 0 }
  have hnonneg := @sum_fileRecords_nonneg records pathPrefix h _ hlen
  have hle := @sum_fileRecords_le records pathPrefix h (getAllFiles inRole vdir)
  obtain ⟨m, hm⟩ : ∃ m : Nat,
      (m : Int) = writtenRecords records pathPrefix (getAllFiles inRole vdir) :=
    ⟨_, Int.toNat_of_nonneg (by rw [writtenRecords]; omega)⟩
  rw [writtenRecords] at hm
  have hbytes : st.finish.byteCount = padded blockSize (512 * m) := by
    rw [TarArchiveOutputStream.finish, recordSize]
    dsimp only at hcount ⊢
    exact congrArg (padded blockSize) (by omega)
  have hblocks := padded_eq m
  rw [← hbytes, hm] at hblocks
  refine ⟨st.finish.byteCount, hblocks, ?_⟩
  have hfiles : (initTarFile records pathPrefix vdir inRole).files.foldlM
      (writeEntry records read (initTarFile records pathPrefix vdir inRole).pathPrefix)
      { byteCount := 0, currSize := 0, currBytes := 0 } = .ok st := hfiles
  have hwrap : wrapLong st.finish.byteCount = st.finish.byteCount := by
    refine wrapLong_eq (by omega) ?_
    rw [hblocks, blocks]
    omega
  rw [TarFile.write, hfiles]
  dsimp only
  rw [hwrap]

/-- **The announced size is the size written if and only if** the additional records of the headers
for the rounded lengths take no further block. -/
theorem tarFile_write_iff (h : FixedHeaders records) (pathPrefix : JString)
    (vdir : VirtualDirectory) (inRole : JString → Bool) {read : JString → List Nat}
    (hlen : ∀ e ∈ getAllFiles inRole vdir, 0 ≤ e.2.length.toInt)
    (hsum : totalLength (getAllFiles inRole vdir) < 2 ^ 62)
    (hheaders : totalHeaders records pathPrefix (fun e => e.2.length.toInt)
      (getAllFiles inRole vdir) < 2 ^ 60)
    (hrounded : totalHeaders records pathPrefix roundedLength (getAllFiles inRole vdir) < 2 ^ 60)
    (hreal : ∀ e ∈ getAllFiles inRole vdir, RealLength read e) :
    (∃ n : Nat, (initTarFile records pathPrefix vdir inRole).write records read = .ok n ∧
        (n : Int) = (initTarFile records pathPrefix vdir inRole).nrBytes) ↔
      blocks (writtenRecords records pathPrefix (getAllFiles inRole vdir) +
          totalExtra records pathPrefix (getAllFiles inRole vdir)) =
        blocks (writtenRecords records pathPrefix (getAllFiles inRole vdir)) := by
  obtain ⟨n, hn, hwrite⟩ := write_bytes h hlen hsum hheaders hreal
  have hannounced := nrBytes_eq h hlen hsum hrounded
  rw [hwrite]
  constructor
  · rintro ⟨m, hm, _⟩
    split at hm
    · cases hm
    · omega
  · intro hblocks
    refine ⟨n, ?_, by omega⟩
    rw [if_neg (by omega)]

/-- A line of a PAX header, which starts with its own length: `payload` bytes besides. -/
def paxLine (payload : Nat) : Nat :=
  let length := fun n => payload + (Nat.toDigits 10 n).length
  length (length (length (payload + 2)))

/-- The records of a header in the POSIX format, for ASCII names and modification times that fit
into their field: a PAX header comes before it for a long name or a large size. -/
def posixRecords (name : JString) (size _lastModified : Int) : Nat :=
  let pathLine := if 100 < name.length then paxLine (4 + name.length + 3) else 0
  let sizeLine :=
    if maxSize < size then paxLine (4 + (Nat.toDigits 10 size.toNat).length + 3) else 0
  if pathLine + sizeLine = 0 then 1 else 2 + (pathLine + sizeLine + 511) / 512

theorem posixRecords_fixed : FixedHeaders posixRecords where
  pos := by
    intro name size lastModified
    rw [posixRecords]
    generalize (if 100 < name.length then paxLine (4 + name.length + 3) else 0) +
      (if maxSize < size then paxLine (4 + (Nat.toDigits 10 size.toNat).length + 3) else 0) = pax
    split
    · exact Nat.le_refl 1
    · omega
  fixed := by
    intro name size size' lastModified _ hsize _ hsize'
    rw [posixRecords, posixRecords, if_neg (Int.not_lt.mpr hsize), if_neg (Int.not_lt.mpr hsize')]

/-- A directory with one file. -/
def oneFile (length : BitVec 64) : VirtualDirectory :=
  .node
    { virtualPath := lit "d", realPath := none
      files := [(lit "f", { virtualPath := lit "d/f", filesystemPath := lit "f", length := length
                            lastModified := 0, mediaType := lit "text/plain" })]
      sizeOfFiles := length, requiredRoles := [] } []

theorem tarFile_write_iff_small :
    ∃ n : Nat, (initTarFile posixRecords (lit "d/") (oneFile 1000) fun _ => true).write posixRecords
        (fun _ => [512, 488]) = .ok n ∧
      (n : Int) =
        (initTarFile posixRecords (lit "d/") (oneFile 1000) fun _ => true).nrBytes := by
  have hiff := tarFile_write_iff posixRecords_fixed (lit "d/") (oneFile 1000) (fun _ => true)
    (fun e he => (by rw [List.mem_singleton.mp he]; decide)) (by decide) (by decide) (by decide)
    (fun e he => (by rw [List.mem_singleton.mp he]; rfl : RealLength (fun _ => [512, 488]) e))
  exact hiff.mpr (by decide)

/-- A file one byte short of 8 GiB: the announced header has a PAX header, the written one has
not. -/
theorem almostEightGiB_fails :
    (∀ e ∈ getAllFiles (fun _ => true) (oneFile 8589934591),
        RealLength (fun _ => (2 ^ 30 - 1) :: List.replicate 7 (2 ^ 30)) e) ∧
      (initTarFile posixRecords (lit "d/") (oneFile 8589934591) fun _ => true).write posixRecords
          (fun _ => (2 ^ 30 - 1) :: List.replicate 7 (2 ^ 30)) =
        .error (.runtime (lit "Unexpected number of bytes written")) := by
  refine ⟨fun e he => ?_, by decide +kernel⟩
  rw [List.mem_singleton.mp he, RealLength]
  decide

end HdfStream.Virtual
