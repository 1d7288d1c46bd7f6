import RefMonitor.Defer
import RefMonitor.PathBasedSyscall
import RefMonitor.Lib.Fields

/-!
# The log as a text

`defer_bottom_half` prints a record as one line: four numbers, the program's path and the
digest, with commas between them and a newline at the end. The path is printed as it is.
Commas in it do no harm, since the fields before it hold none and the digest behind it has a
fixed length; a newline ends the line early, and a path can be chosen that looks like the end
of its own record and the start of another.

Results:
1. `body_inj`: a line without its newline determines the record.
2. `readable_iff`: two sequences of records can be read back exactly when no path in them
   holds a newline.
3. `imitated_records`: one record with the text of two.
-/

namespace RefMonitor
open CString Fields

/-! ## Records -/

/-- What one line of the log is about: the denial, with a path the kernel can have returned,
and the digest of the program. -/
structure LogRecord where
  denial : Denial
  program_nul : (0 : UInt8) ∉ denial.program
  program_lt : denial.program.length < maxFileName
  digest : Vector UInt8 64

/-- The 128 digits of the digest. -/
def LogRecord.hash (r : LogRecord) : List UInt8 := r.digest.toList.flatMap hexByte

/-- The line that is appended for the record. -/
def LogRecord.line (r : LogRecord) : List UInt8 := r.denial.line r.hash

/-- What `sprintf` leaves in the buffer for work with this denial and digest is the line. -/
theorem LogRecord.sprintf_eq {r : LogRecord} {data : WorkData} {ciphertext : List UInt8}
    (hdata : data.denial = r.denial) (hhash : cstr ciphertext = r.hash) :
    cstr (sprintfRecord data ciphertext) = r.line := by
  rw [cstr_sprintfRecord, hdata, hhash]
  rfl

/-- The text behind the header after the records have been appended one after the other. -/
def logText (records : List LogRecord) : List UInt8 := records.flatMap LogRecord.line

/-- A line without its newline. -/
def LogRecord.body (r : LogRecord) : List UInt8 :=
  printD r.denial.tgid ++ comma :: (printD r.denial.tid ++ comma :: (printD r.denial.uid ++
    comma :: (printD r.denial.euid ++ comma :: (r.denial.program ++ comma :: r.hash))))

/-- The two logs are read back without doubt: a line for each record, and one log for each
sequence of records. -/
structure Readable (records records' : List LogRecord) : Prop where
  oneLine : lines newline (logText records) = records.map LogRecord.body
  oneLine' : lines newline (logText records') = records'.map LogRecord.body
  unique : logText records = logText records' → records = records'

/-! ## Fields -/

/-- The bytes of a printed number: digits and the minus sign. -/
theorem mem_printD {n : UInt32} {b : UInt8} (h : b ∈ printD n) :
    b = 45 ∨ 48 ≤ b.toNat ∧ b.toNat ≤ 57 := by
  unfold printD at h
  dsimp only at h
  split at h
  · rcases List.mem_cons.mp h with h | h
    · exact .inl h
    · exact .inr (decimal_digit h)
  · exact .inr (decimal_digit h)

theorem comma_notMem_printD (n : UInt32) : comma ∉ printD n := by
  intro h
  rcases mem_printD h with h | ⟨h, -⟩
  · exact absurd h (by decide)
  · exact absurd h (by decide)

theorem newline_notMem_printD (n : UInt32) : newline ∉ printD n := by
  intro h
  rcases mem_printD h with h | ⟨h, -⟩
  · exact absurd h (by decide)
  · exact absurd h (by decide)

theorem printD_inj {m n : UInt32} (h : printD m = printD n) : m = n := by
  have hminus : ∀ k, (45 : UInt8) ∉ decimal k := by
    intro k hk
    exact absurd (decimal_digit hk).1 (by decide)
  have hint : m.toBitVec.toInt = n.toBitVec.toInt := by
    unfold printD at h
    dsimp only at h
    split at h
    · next hm =>
      split at h
      · next hn =>
        have habs := decimal_inj (List.cons.inj h).2
        omega
      · -- the sign of one number would be a digit of the other
        exact absurd (h ▸ List.mem_cons_self ..) (hminus _)
    · next hm =>
      split at h
      · exact absurd (h ▸ List.mem_cons_self ..) (hminus _)
      · next hn =>
        have habs := decimal_inj h
        omega
  exact UInt32.toBitVec_inj.mp (BitVec.eq_of_toInt_eq hint)

theorem LogRecord.length_hash (r : LogRecord) : r.hash.length = 128 := by
  rw [LogRecord.hash, length_flatMap_hexByte, Vector.length_toList]

theorem newline_notMem_hash (r : LogRecord) : newline ∉ r.hash := by
  have hdigit : ∀ n : Fin 16, newline ≠ hexDigit n := by decide
  intro h
  obtain ⟨b, -, hb⟩ := List.mem_flatMap.mp h
  have hlt : b.toNat < 256 := b.toNat_lt
  simp only [hexByte, List.mem_cons, List.not_mem_nil, or_false] at hb
  rcases hb with hb | hb
  · exact hdigit ⟨b.toNat / 16, by omega⟩ hb
  · exact hdigit ⟨b.toNat % 16, by omega⟩ hb

/-! ## Lines -/

theorem LogRecord.line_eq (r : LogRecord) : r.line = r.body ++ [newline] := by
  unfold LogRecord.line Denial.line LogRecord.body
  simp only [List.append_assoc, List.cons_append]
  rfl

theorem logText_eq (records : List LogRecord) :
    logText records = terminated newline (records.map LogRecord.body) := by
  rw [logText, terminated, List.flatMap_map]
  exact List.flatMap_congr fun r _ => r.line_eq

/-- Only the path can bring a newline into a line. -/
theorem newline_mem_body_iff (r : LogRecord) :
    newline ∈ r.body ↔ newline ∈ r.denial.program := by
  have hcomma : newline ≠ comma := by decide
  simp only [LogRecord.body, List.mem_append, List.mem_cons, newline_notMem_printD, hcomma,
    newline_notMem_hash, false_or, or_false]

theorem body_inj {r r' : LogRecord} (h : r.body = r'.body) : r = r' := by
  obtain ⟨htgid, h⟩ := append_sep_inj (comma_notMem_printD _) (comma_notMem_printD _) h
  obtain ⟨htid, h⟩ := append_sep_inj (comma_notMem_printD _) (comma_notMem_printD _) h
  obtain ⟨huid, h⟩ := append_sep_inj (comma_notMem_printD _) (comma_notMem_printD _) h
  obtain ⟨heuid, h⟩ := append_sep_inj (comma_notMem_printD _) (comma_notMem_printD _) h
  -- the path may hold commas, but what stands behind it is as long in both
  obtain ⟨hprogram, hrest⟩ := List.append_inj' h
    (by rw [List.length_cons, List.length_cons, r.length_hash, r'.length_hash])
  have hdigest : r.digest = r'.digest :=
    Vector.toList_inj.mp (flatMap_hexByte_inj (List.cons.inj hrest).2)
  obtain ⟨⟨tgid, tid, uid, euid, program⟩, hnul, hlt, digest⟩ := r
  obtain ⟨⟨tgid', tid', uid', euid', program'⟩, hnul', hlt', digest'⟩ := r'
  cases printD_inj htgid
  cases printD_inj htid
  cases printD_inj huid
  cases printD_inj heuid
  cases hprogram
  cases hdigest
  rfl

/-- No path in the sequence holds a newline. -/
def PathsOnOneLine (records : List LogRecord) : Prop :=
  ∀ r ∈ records, newline ∉ r.denial.program

theorem lines_logText_iff (records : List LogRecord) :
    lines newline (logText records) = records.map LogRecord.body ↔ PathsOnOneLine records := by
  rw [logText_eq, lines_terminated_iff]
  constructor
  · intro h r hr hmem
    exact h r.body (List.mem_map_of_mem hr) ((newline_mem_body_iff r).mpr hmem)
  · intro h body hbody
    obtain ⟨r, hr, rfl⟩ := List.mem_map.mp hbody
    exact fun hmem => h r hr ((newline_mem_body_iff r).mp hmem)

/-- Two sequences of records are read back, line by line and without doubt, exactly when no
path in them holds a newline. -/
theorem readable_iff (records records' : List LogRecord) :
    Readable records records' ↔ PathsOnOneLine records ∧ PathsOnOneLine records' := by
  constructor
  · intro h
    exact ⟨(lines_logText_iff records).mp h.oneLine, (lines_logText_iff records').mp h.oneLine'⟩
  · rintro ⟨h, h'⟩
    have hlines := (lines_logText_iff records).mpr h
    have hlines' := (lines_logText_iff records').mpr h'
    refine ⟨hlines, hlines', ?_⟩
    intro htext
    rw [htext, hlines'] at hlines
    exact (List.map_injective_iff.mpr fun _ _ => body_inj) hlines.symm

/-! ## A path that imitates a record -/

def zeroDigest : Vector UInt8 64 := Vector.replicate 64 0

theorem plainA_nul : (0 : UInt8) ∉ ascii "/a" := by decide
theorem plainA_lt : (ascii "/a").length < maxFileName := by decide
theorem plainB_nul : (0 : UInt8) ∉ ascii "/b" := by decide
theorem plainB_lt : (ascii "/b").length < maxFileName := by decide

/-- The path `/a`, the rest of its record, a newline and the start of a record of `/b`. -/
def imitatingPath : List UInt8 :=
  ascii "/a," ++ zeroDigest.toList.flatMap hexByte ++ ascii "\n1,1,1,1,/b"

theorem imitating_nul : (0 : UInt8) ∉ imitatingPath := by decide +kernel
theorem imitating_lt : imitatingPath.length < maxFileName := by decide +kernel

def denialOf (program : List UInt8) : Denial :=
  { tgid := 1, tid := 1, uid := 1, euid := 1, program := program }

def recordA : LogRecord := ⟨denialOf (ascii "/a"), plainA_nul, plainA_lt, zeroDigest⟩
def recordB : LogRecord := ⟨denialOf (ascii "/b"), plainB_nul, plainB_lt, zeroDigest⟩
def imitatingRecord : LogRecord :=
  ⟨denialOf imitatingPath, imitating_nul, imitating_lt, zeroDigest⟩

/-- One record of a program with that path has the text of the records of `/a` and `/b`. -/
theorem imitated_records :
    logText [imitatingRecord] = logText [recordA, recordB] ∧
      [imitatingRecord] ≠ [recordA, recordB] ∧
      ¬ Readable [imitatingRecord] [recordA, recordB] := by
  have htext : logText [imitatingRecord] = logText [recordA, recordB] := by decide +kernel
  have hne : [imitatingRecord] ≠ [recordA, recordB] := by
    intro h
    exact absurd (congrArg List.length h) (by decide)
  exact ⟨htext, hne, fun h => hne (h.unique htext)⟩

end RefMonitor
