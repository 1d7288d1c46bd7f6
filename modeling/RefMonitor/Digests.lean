import RefMonitor.Audit
import RefMonitor.Password

/-!
# What a digest is computed from

`hash_plaintext` was written for passwords in clean memory. Two things come between a text and its
digest. `salt_text` builds the salted text in a buffer nobody has cleared: the salt goes behind the
first zero byte at or after the end of the plaintext, wherever that is. And the length of what is
hashed is a `strlen`, so of the program file that `defer_bottom_half` reads only the bytes before
the first NUL count.

No function into 64 bytes is injective. What is used of SHA-512 is that the text in question has
no second preimage (`Env.CollisionFree`).

Results:
1. `saltsCleanly_iff`: the byte of fresh memory the digest depends on.
2. `heap_independent_iff`: two contents of the fresh buffer.
3. `bottomHalf_appends`: the line a run of the bottom half leaves in the log.
4. `hash_column_iff`: the hash columns of two program files.
-/

namespace RefMonitor
open CString

variable {δ : Type}

/-! ## Fresh memory -/

/-- The digits of a digest, with their NUL. -/
def hexDigest (hash : Vector UInt8 64) : List UInt8 := hash.toList.flatMap hexByte ++ [0]

/-- The positions of the allocated buffer that `salt_text` writes: those of `strncpy`, then those
of `strncat` with its NUL. -/
def saltTextStores (env : Env) (plaintext : List UInt8) : List Nat :=
  let fresh := env.kmalloc (strlen plaintext + saltLength + 1)
  let copied := strncpy fresh plaintext (strlen plaintext)
  List.range (strlen plaintext) ++
    List.range' (strlen copied) (((cstr env.salt).take saltLength).length + 1)

/-- The digest is that of the plaintext followed by the salt, and all stores are in bounds. -/
structure SaltsCleanly (env : Env) (plaintext : List UInt8) : Prop where
  digest : hashPlaintext env plaintext = (env.sha512 (salted env plaintext)).map hexDigest
  stores : ∀ i ∈ saltTextStores env plaintext, i < strlen plaintext + saltLength + 1

/-- The byte of the fresh buffer where the plaintext ends is zero. -/
def EndsClean (env : Env) (plaintext : List UInt8) : Prop :=
  (env.kmalloc (strlen plaintext + saltLength + 1))[strlen plaintext]? = some 0

instance (env : Env) (plaintext : List UInt8) : Decidable (EndsClean env plaintext) :=
  inferInstanceAs (Decidable (_ = _))

theorem hashPlaintext_eq (env : Env) (plaintext : List UInt8) :
    hashPlaintext env plaintext = (env.sha512 (cstr (saltText env plaintext))).map hexDigest := by
  unfold hashPlaintext
  cases env.sha512 (cstr (saltText env plaintext)) with
  | none => rfl
  | some hash => rfl

theorem hexDigest_inj {hash hash' : Vector UInt8 64} (h : hexDigest hash = hexDigest hash') :
    hash = hash' :=
  Vector.toList_inj.mp (flatMap_hexByte_inj (List.append_cancel_right h))

/-- Nothing stands between the plaintext and the salt exactly when the first byte is zero. -/
theorem endsClean_iff {env : Env} {plaintext : List UInt8} :
    EndsClean env plaintext ↔
      cstr ((env.kmalloc (strlen plaintext + saltLength + 1)).drop (strlen plaintext)) = [] := by
  have hlt : strlen plaintext < (env.kmalloc (strlen plaintext + saltLength + 1)).length := by
    rw [env.kmalloc_length]
    omega
  rw [EndsClean, cstr_drop_eq_nil_iff, List.getD_eq_getElem _ _ hlt, List.getElem?_eq_getElem hlt,
    Option.some_inj]

/-- The salted text is the plaintext followed by the salt exactly then. -/
theorem cstr_saltText_iff {env : Env} {plaintext : List UInt8} :
    cstr (saltText env plaintext) = salted env plaintext ↔ EndsClean env plaintext := by
  rw [cstr_saltText_eq, salted, endsClean_iff]
  constructor
  · intro h
    exact List.append_right_eq_self.mp (List.append_cancel_right h)
  · intro h
    rw [h, List.append_nil]

theorem saltTextStores_lt {env : Env} {plaintext : List UInt8} (h : EndsClean env plaintext) :
    ∀ i ∈ saltTextStores env plaintext, i < strlen plaintext + saltLength + 1 := by
  have hlen : strlen (strncpy (env.kmalloc (strlen plaintext + saltLength + 1)) plaintext
      (strlen plaintext)) = strlen plaintext := by
    rw [strlen, cstr_strncpy_strlen, endsClean_iff.mp h, List.append_nil]
    rfl
  have hsalt : ((cstr env.salt).take saltLength).length ≤ saltLength := by
    rw [List.length_take]
    exact Nat.min_le_left ..
  intro i hi
  unfold saltTextStores at hi
  dsimp only at hi
  rw [hlen] at hi
  rcases List.mem_append.mp hi with hi | hi
  · have hlt := List.mem_range.mp hi
    omega
  · obtain ⟨_, hlt⟩ := List.mem_range'_1.mp hi
    omega

/-- The digest is right, and the buffer kept to, exactly when that byte happens to be zero. -/
theorem saltsCleanly_iff {env : Env} {plaintext : List UInt8} (hhash : env.Hashes)
    (hfree : env.CollisionFree plaintext) : SaltsCleanly env plaintext ↔ EndsClean env plaintext := by
  constructor
  · intro h
    have hdigest := h.digest
    rw [hashPlaintext_eq] at hdigest
    rw [← cstr_saltText_iff]
    refine hfree _ ?_
    cases hs : env.sha512 (cstr (saltText env plaintext)) with
    | none => exact absurd hs (hhash _)
    | some hash =>
      cases hs' : env.sha512 (salted env plaintext) with
      | none => exact absurd hs' (hhash _)
      | some hash' =>
        rw [hs, hs'] at hdigest
        rw [hexDigest_inj (Option.some.inj hdigest)]
  · intro h
    refine ⟨?_, saltTextStores_lt h⟩
    rw [hashPlaintext_eq, cstr_saltText_iff.mpr h]

/-- Two runs in which only the fresh memory differs give the digest of the plaintext followed by
the salt, with all stores in bounds, exactly when in both runs the fresh buffer holds a zero byte
where the plaintext ends. -/
theorem heap_independent_iff (env₁ env₂ : Env) (plaintext : List UInt8)
    (hsha : env₁.sha512 = env₂.sha512) (hsalt : env₁.salt = env₂.salt) (hhash : env₁.Hashes)
    (hfree : env₁.CollisionFree plaintext) :
    (hashPlaintext env₁ plaintext = hashPlaintext env₂ plaintext ∧
      SaltsCleanly env₁ plaintext ∧ SaltsCleanly env₂ plaintext) ↔
      EndsClean env₁ plaintext ∧ EndsClean env₂ plaintext := by
  have hsalted : salted env₁ plaintext = salted env₂ plaintext := by rw [salted, salted, hsalt]
  have hhash₂ : env₂.Hashes := fun text => by
    rw [← hsha]
    exact hhash text
  have hfree₂ : env₂.CollisionFree plaintext := fun text h => by
    rw [← hsha, ← hsalted] at h
    rw [← hsalted]
    exact hfree text h
  rw [saltsCleanly_iff hhash hfree, saltsCleanly_iff hhash₂ hfree₂]
  refine ⟨fun h => h.2, fun h => ⟨?_, h⟩⟩
  rw [((saltsCleanly_iff hhash hfree).mpr h.1).digest,
    ((saltsCleanly_iff hhash₂ hfree₂).mpr h.2).digest, hsha, hsalted]

/-- An environment in which fresh memory is filled with one byte, except at one position. -/
def heapEnv (env : Env) (byte : UInt8) (clean : Nat) : Env :=
  { env with
    kmalloc := fun n => (List.replicate n byte).set clean 0
    kmalloc_length := fun n => by rw [List.length_set, List.length_replicate] }

/-- A fresh buffer full of the letter A: the digest is another one than in zeroed memory, and the
salt is written behind the end of the buffer. -/
theorem heap_garbage_hashed :
    ¬ (hashPlaintext sampleModule.env samplePassword =
        hashPlaintext (heapEnv sampleModule.env 65 100) samplePassword ∧
      SaltsCleanly sampleModule.env samplePassword ∧
      SaltsCleanly (heapEnv sampleModule.env 65 100) samplePassword) ∧
    ∃ i ∈ saltTextStores (heapEnv sampleModule.env 65 100) samplePassword,
      strlen samplePassword + saltLength + 1 ≤ i := by
  refine ⟨fun h => absurd h.1 (by decide +kernel), 30, by decide +kernel, by decide +kernel⟩

/-- One zero byte, at the end of the password, is enough. -/
theorem heap_independent_iff_sample :
    hashPlaintext pickyEnv sampleParams.pwd =
      hashPlaintext (heapEnv pickyEnv 65 13) sampleParams.pwd :=
  ((heap_independent_iff pickyEnv (heapEnv pickyEnv 65 13) sampleParams.pwd rfl rfl picky_hashes
    (picky_collisionFree (.inl rfl))).mpr ⟨by decide +kernel, by decide +kernel⟩).1

/-! ## Program files -/

theorem length_take_le (contents : List UInt8) (n : Nat) (bytes : List UInt8)
    (h : (.ok (contents.take n) : Except Errno (List UInt8)) = .ok bytes) :
    bytes.length ≤ contents.length := by
  cases h
  rw [List.length_take]
  exact Nat.min_le_right ..

/-- A file with the given bytes, read in one `kernel_read` of its size. -/
def FileData.ofContents (contents : List UInt8) : FileData where
  iSize := contents.length
  read := .ok (contents.take maxRwCount)
  read_le := length_take_le contents maxRwCount

/-- The three parts of `defer_bottom_half` one after the other, and the log they leave. -/
def bottomHalf (env : Env) (maxFileSize : Nat) (files : Files δ) (io : WorkIo) (log : LogFs)
    (data : WorkData) : LogFs :=
  let opened := deferBottomHalf env maxFileSize files io log (.started data)
  let printed := deferBottomHalf env maxFileSize files io opened.2 opened.1
  (deferBottomHalf env maxFileSize files io printed.2 printed.1).2

/-- A run that leaves a line: the program opens and has the given contents, nothing fails, and the
log has room for the record. -/
structure Records (maxFileSize : Nat) (files : Files δ) (io : WorkIo) (log : LogFs)
    (data : WorkData) (contents : List UInt8) : Prop where
  program : ∃ file, files.filpOpen data.pathName = .ok file ∧
    files.data file = FileData.ofContents contents
  alloc : ∀ k, io.alloc k = true
  openLog : files.openLog = .ok ()
  device : io.write.Works
  position : log.iSize ≤ lastPos
  room : ∀ hash, hash.length = 128 → log.Room maxFileSize (data.denial.line hash).length

/-- The bytes of a file that reach the hash: of those that one read gives, the ones before the
first NUL. -/
def hashedBytes (contents : List UInt8) : List UInt8 := cstr (contents.take maxRwCount)

theorem cstr_hashedBytes (contents : List UInt8) :
    cstr (hashedBytes contents) = hashedBytes contents := cstr_eq_self (zero_notMem_cstr _)

theorem cstr_fileContents {env : Env} (hzero : env.Zeroed) {iSize : Nat} {bytes : List UInt8}
    (h : bytes.length ≤ iSize) : cstr (fileContents env iSize bytes) = cstr bytes := by
  have hread : writeAt (env.kmalloc (iSize + 1)) 0 bytes = padded (iSize + 1) bytes := by
    rw [hzero, ← padded_nil, writeAt_zero_padded (Nat.zero_le _) (by omega)]
  have hlen : (padded (iSize + 1) bytes).length = iSize + 1 := length_padded (by omega)
  have htake : (padded (iSize + 1) bytes).take iSize = padded iSize bytes := by
    rw [padded, padded, List.take_append, List.take_of_length_le h, List.take_replicate]
    congr 2
    omega
  have hend : [0] ++ (padded (iSize + 1) bytes).drop (iSize + [(0 : UInt8)].length) =
      List.replicate 1 0 := by
    rw [List.length_singleton, List.drop_eq_nil_of_le (Nat.le_of_eq hlen)]
    rfl
  rw [fileContents, hread, writeAt, htake, List.append_assoc, hend, cstr_append_zeros,
    cstr_padded_eq]

/-- The second part prints the digest of the buffer into the last column. -/
theorem deferBottomHalf_prints {env : Env} {maxFileSize : Nat} {files : Files δ} {io : WorkIo}
    {log : LogFs} {data : WorkData} {file : Inode} {bytes ciphertext : List UInt8}
    (halloc : ∀ k, io.alloc k = true) (hread : (files.data file).read = .ok bytes)
    (hhash : hashPlaintext env (fileContents env (files.data file).iSize bytes) = some ciphertext) :
    ∃ line pos, deferBottomHalf env maxFileSize files io log (.opened data file) =
        (.printed line pos, log) ∧ line.text = data.denial.line (cstr ciphertext) := by
  simp only [deferBottomHalf, halloc, hread, Bool.not_true, Bool.false_eq_true, if_false]
  split
  · next hnone => exact absurd (hnone.symm.trans hhash) (by simp)
  · next digest hsome =>
    obtain rfl := Option.some.inj (hsome.symm.trans hhash)
    exact ⟨_, _, rfl, cstr_sprintfRecord ..⟩

/-- What the run appends to the log. -/
theorem bottomHalf_appends {env : Env} (hzero : env.Zeroed) (hhash : env.Hashes) {maxFileSize : Nat}
    {files : Files δ} {io : WorkIo} {log : LogFs} {data : WorkData} {contents : List UInt8}
    (h : Records maxFileSize files io log data contents) :
    ∃ hash, env.sha512 (salted env (hashedBytes contents)) = some hash ∧
      (bottomHalf env maxFileSize files io log data).visible =
        log.visible ++ data.denial.line (hash.toList.flatMap hexByte) := by
  obtain ⟨file, hopen, hdata⟩ := h.program
  have hread : (files.data file).read = .ok (contents.take maxRwCount) := by rw [hdata]; rfl
  have hsize : (files.data file).iSize = contents.length := by rw [hdata]; rfl
  obtain ⟨hash, hsha⟩ := Option.ne_none_iff_exists'.mp (hhash (salted env (hashedBytes contents)))
  have hcontents : cstr (fileContents env (files.data file).iSize (contents.take maxRwCount)) =
      hashedBytes contents := by
    rw [hsize]
    exact cstr_fileContents hzero (length_take_le contents maxRwCount _ rfl)
  have hcipher : hashPlaintext env (fileContents env (files.data file).iSize
      (contents.take maxRwCount)) = some (hexDigest hash) := by
    rw [← hashPlaintext_cstr, hcontents, hashPlaintext_eq, cstr_saltText hzero, hsha]
    rfl
  obtain ⟨line, pos, hprint, hline⟩ := @deferBottomHalf_prints δ env maxFileSize files io log data
    file _ _ h.alloc hread hcipher
  have hopened : deferBottomHalf env maxFileSize files io log (.started data) =
      (.opened data file, log) := by
    simp only [deferBottomHalf, h.alloc, hopen, Bool.not_true, Bool.false_eq_true, if_false]
  have hdigits : cstr (hexDigest hash) = hash.toList.flatMap hexByte := cstr_hash
  rw [hdigits] at hline
  have hroom : log.Room maxFileSize line.text.length := by
    rw [hline]
    refine h.room _ ?_
    rw [length_flatMap_hexByte, Vector.length_toList]
  refine ⟨hash, hsha, ?_⟩
  rw [bottomHalf, hopened]
  dsimp only
  rw [hprint]
  simp only [deferBottomHalf, h.openLog]
  rw [← hline]
  exact (@onefilefsWrite_works maxFileSize log
    { buf := line.text, buf_le := line.text_le, off := pos, io := io.write } h.position hroom
    h.device).1

/-! ## The hash column -/

/-- The last column of the last line of the log: the 128 bytes before the newline. -/
def hashColumn (log : List UInt8) : List UInt8 := log.dropLast.drop (log.length - 129)

theorem hashColumn_line (before : List UInt8) (d : Denial) {hash : List UInt8}
    (h : hash.length = 128) : hashColumn (before ++ d.line hash) = hash := by
  obtain ⟨rest, hrest⟩ : ∃ rest, before ++ d.line hash = rest ++ hash ++ ascii "\n" :=
    ⟨_, by rw [Denial.line, ← List.append_assoc, List.append_cons, ← List.append_assoc]⟩
  have hlen : (rest ++ hash ++ ascii "\n").length - 129 = rest.length := by
    rw [List.length_append, List.length_append, h, show (ascii "\n").length = 1 from rfl]
    omega
  rw [hrest, hashColumn, hlen]
  rw [show ascii "\n" = [10] from rfl, List.dropLast_concat, List.drop_left]

/-- The hash columns of two programs agree exactly when the bytes that reach the hash do. -/
theorem hashColumn_eq_iff {env : Env} (hzero : env.Zeroed) (hhash : env.Hashes) {maxFileSize : Nat}
    {files₁ files₂ : Files δ} {io₁ io₂ : WorkIo} {log₁ log₂ : LogFs} {data₁ data₂ : WorkData}
    {contents₁ contents₂ : List UInt8} (h₁ : Records maxFileSize files₁ io₁ log₁ data₁ contents₁)
    (h₂ : Records maxFileSize files₂ io₂ log₂ data₂ contents₂)
    (hfree : env.CollisionFree (hashedBytes contents₁)) :
    hashColumn (bottomHalf env maxFileSize files₁ io₁ log₁ data₁).visible =
      hashColumn (bottomHalf env maxFileSize files₂ io₂ log₂ data₂).visible ↔
    hashedBytes contents₁ = hashedBytes contents₂ := by
  obtain ⟨hash₁, hsha₁, hlog₁⟩ := bottomHalf_appends hzero hhash h₁
  obtain ⟨hash₂, hsha₂, hlog₂⟩ := bottomHalf_appends hzero hhash h₂
  have hdigits : ∀ hash : Vector UInt8 64, (hash.toList.flatMap hexByte).length = 128 := fun hash => by
    rw [length_flatMap_hexByte, Vector.length_toList]
  rw [hlog₁, hlog₂, hashColumn_line _ _ (hdigits _), hashColumn_line _ _ (hdigits _)]
  constructor
  · intro h
    have hhash : hash₁ = hash₂ := Vector.toList_inj.mp (flatMap_hexByte_inj h)
    have hsalted : salted env (hashedBytes contents₂) = salted env (hashedBytes contents₁) :=
      hfree _ (hsha₂.trans (hhash ▸ hsha₁.symm))
    have hbytes := salted_inj hsalted
    rw [cstr_hashedBytes, cstr_hashedBytes] at hbytes
    exact hbytes.symm
  · intro h
    rw [h, hsha₂] at hsha₁
    rw [Option.some.inj hsha₁]

/-- With zeroed memory, for any two programs: the hash columns tell their contents apart exactly
when the contents are the same, or differ before the first NUL of what one read gives. -/
theorem hash_column_iff (env : Env) (hzero : env.Zeroed) (hhash : env.Hashes) (maxFileSize : Nat)
    (files₁ files₂ : Files δ) (io₁ io₂ : WorkIo) (log₁ log₂ : LogFs) (data₁ data₂ : WorkData)
    (contents₁ contents₂ : List UInt8) (h₁ : Records maxFileSize files₁ io₁ log₁ data₁ contents₁)
    (h₂ : Records maxFileSize files₂ io₂ log₂ data₂ contents₂)
    (hfree : env.CollisionFree (hashedBytes contents₁)) :
    (hashColumn (bottomHalf env maxFileSize files₁ io₁ log₁ data₁).visible =
        hashColumn (bottomHalf env maxFileSize files₂ io₂ log₂ data₂).visible ↔
      contents₁ = contents₂) ↔
    contents₁ = contents₂ ∨
      cstr (contents₁.take maxRwCount) ≠ cstr (contents₂.take maxRwCount) := by
  rw [hashColumn_eq_iff hzero hhash h₁ h₂ hfree]
  unfold hashedBytes
  by_cases hsame : contents₁ = contents₂
  · rw [hsame]
    exact ⟨fun _ => .inl rfl, fun _ => ⟨fun _ => rfl, fun _ => rfl⟩⟩
  · rw [or_iff_right hsame, iff_false_right hsame]

/-! ## Two files that differ behind a NUL -/

/-- The sample files, with one program in all of them. -/
def sampleProgram (contents : List UInt8) : Files Nat :=
  { sampleFiles sampleTree zero_notMem_sampleText with
    data := fun _ => FileData.ofContents contents }

theorem length_tool : (ascii "/home/tool").length ≤ maxFileName + 1 := by decide

/-- The offender ran `/home/tool`. -/
def sampleWork : WorkData where
  tgid := 42
  tid := 43
  uid := 1000
  euid := 1000
  pathName := ascii "/home/tool"
  pathName_le := length_tool

theorem sampleProgram_records (contents : List UInt8) :
    Records (2 ^ 32) (sampleProgram contents) sampleIo sampleAudit.log sampleWork contents where
  program := ⟨⟨0, 7⟩, rfl, rfl⟩
  alloc _ := rfl
  openLog := rfl
  device := ⟨fun _ => rfl, fun _ => rfl⟩
  position := Nat.zero_le _
  room hash h := by
    have hlen : (sampleWork.denial.line hash).length =
        (sampleWork.denial.line []).length + hash.length := by
      simp only [Denial.line, List.length_append, List.length_cons, List.length_nil]
      omega
    rw [hlen, h]
    exact ⟨by decide +kernel, by decide +kernel, by decide +kernel⟩

/-- A hash that knows the one-letter texts A and B; there is no salt. -/
def letterEnv : Env :=
  { sampleEnv with sha512 := fun text => some (pickyHash [65] [66] text) }

theorem letterEnv_collisionFree : letterEnv.CollisionFree [65] := by
  have hsalted : salted letterEnv [65] = [65] := by decide
  intro text htext
  have hhash := Option.some.inj htext
  rw [hsalted] at hhash ⊢
  by_contra hother
  rw [pickyHash, if_neg hother, pickyHash, if_pos rfl] at hhash
  split at hhash
  · exact absurd hhash (by decide)
  · exact absurd hhash (by decide)

/-- The contents `A NUL B` and `A NUL C` have one hash column. -/
theorem nul_hides_contents :
    letterEnv.Zeroed ∧ letterEnv.Hashes ∧ letterEnv.CollisionFree (hashedBytes [65, 0, 66]) ∧
    ¬ (hashColumn (bottomHalf letterEnv (2 ^ 32) (sampleProgram [65, 0, 66]) sampleIo
          sampleAudit.log sampleWork).visible =
        hashColumn (bottomHalf letterEnv (2 ^ 32) (sampleProgram [65, 0, 67]) sampleIo
          sampleAudit.log sampleWork).visible ↔
      ([65, 0, 66] : List UInt8) = [65, 0, 67]) := by
  have hzero : letterEnv.Zeroed := fun _ => rfl
  have hhash : letterEnv.Hashes := fun _ => Option.some_ne_none _
  have hfree : letterEnv.CollisionFree (hashedBytes [65, 0, 66]) := letterEnv_collisionFree
  refine ⟨hzero, hhash, hfree, fun h => ?_⟩
  have hsame := (hashColumn_eq_iff hzero hhash (sampleProgram_records [65, 0, 66])
    (sampleProgram_records [65, 0, 67]) hfree).mpr rfl
  exact absurd (h.mp hsame) (by decide)

/-- The contents `A` and `B` have two. -/
theorem hash_column_iff_letters :
    hashColumn (bottomHalf letterEnv (2 ^ 32) (sampleProgram [65]) sampleIo
        sampleAudit.log sampleWork).visible =
      hashColumn (bottomHalf letterEnv (2 ^ 32) (sampleProgram [66]) sampleIo
        sampleAudit.log sampleWork).visible ↔ ([65] : List UInt8) = [66] :=
  (hash_column_iff letterEnv (fun _ => rfl) (fun _ => Option.some_ne_none _) (2 ^ 32)
    (sampleProgram [65]) (sampleProgram [66]) sampleIo sampleIo sampleAudit.log sampleAudit.log
    sampleWork sampleWork [65] [66] (sampleProgram_records [65]) (sampleProgram_records [66])
    letterEnv_collisionFree).mpr (.inr (by decide))

end RefMonitor
