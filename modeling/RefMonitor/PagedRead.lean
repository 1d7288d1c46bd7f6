import RefMonitor.ProcRead
import RefMonitor.Mediation
import RefMonitor.Lib.Fields
import RefMonitor.Lib.Reader

/-!
# Paging through the list

A reader of the access point asks for a piece of the list, then for the next, and each call
of `syscall_proc_read` prints the whole list again. As long as the list stays the same the
pieces fit together: the reader gets the listing, cut off behind its 4095th byte.

Results:
1. `listText_take`: in the part that fits, `%d` prints the entry numbers.
2. `listingSession_pages`: successive calls page through that part.
3. `listing_read`: what a reader gets until the first empty read.
-/

namespace RefMonitor
open CString Fields Reader

variable {δ : Type}

/-! ## The listing -/

/-- The line of entry number `k`. -/
def listingLine (k : Nat) (entry : RcuRestrict) : List UInt8 :=
  ascii "(i=" ++ decimal k ++ ascii ", path=" ++ entry.path ++ ascii ")\n"

/-- The lines of the entries, numbered from `i` on. -/
def listingFrom (i : Nat) (entries : List RcuRestrict) : List UInt8 :=
  (entries.zipIdx i).flatMap fun e => listingLine e.2 e.1

/-- The full rendering of a list. -/
def listing (entries : List RcuRestrict) : List UInt8 := listingFrom 0 entries

/-- Numbers that fit in an `int` are printed as they are. -/
theorem printD_ofNat {k : Nat} (h : k < 2 ^ 31) : printD (UInt32.ofNat k) = decimal k := by
  have hnat : (UInt32.ofNat k).toBitVec.toNat = k := by
    show (UInt32.ofNat k).toNat = k
    rw [UInt32.toNat_ofNat']
    exact Nat.mod_eq_of_lt (by omega)
  have hint : (UInt32.ofNat k).toBitVec.toInt = k := by
    rw [BitVec.toInt_eq_toNat_of_lt (by rw [hnat]; omega), hnat]
  unfold printD
  dsimp only
  rw [hint, if_neg (by omega), Int.natAbs_natCast]
  rfl

theorem entryLine_eq {i : Nat} (h : i < 2 ^ 31) (entry : RcuRestrict) :
    entryLine i entry = listingLine i entry := by
  rw [entryLine, listingLine, printD_ofNat h]

theorem length_listingLine_pos (k : Nat) (entry : RcuRestrict) :
    0 < (listingLine k entry).length := by
  rw [listingLine, List.length_append]
  exact Nat.lt_of_lt_of_le (by decide : 0 < (ascii ")\n").length) (Nat.le_add_left _ _)

/-- A line has a byte or more, so the first bytes of the text only show numbers that fit. -/
theorem listText_take {entries : List RcuRestrict} :
    ∀ {i n : Nat}, i + n ≤ 2 ^ 31 → (listText i entries).take n = (listingFrom i entries).take n := by
  induction entries with
  | nil => exact fun _ => rfl
  | cons entry entries ih =>
    intro i n h
    cases n with
    | zero => rw [List.take_zero, List.take_zero]
    | succ n =>
      -- the line takes one of the `n + 1` bytes or more, so the next number is still in range
      have hline := length_listingLine_pos i entry
      have hrest : (listText (i + 1) entries).take (n + 1 - (listingLine i entry).length) =
          (listingFrom (i + 1) entries).take (n + 1 - (listingLine i entry).length) :=
        ih (by omega)
      rw [listText, entryLine_eq (by omega), listingFrom, List.zipIdx_cons, List.flatMap_cons,
        List.take_append, List.take_append, hrest]
      rfl

/-! ## Successive reads -/

/-- One read: the process, the state it finds, and how much it asks for. -/
structure ListingCall (δ : Type) where
  env : Env
  task : Task δ
  s : State
  len : Nat
  len_le : len ≤ maxRwCount
  room : Nat

/-- The call at a file offset. -/
def ListingCall.run (c : ListingCall δ) (off : Nat) : ReadResult :=
  syscallProcRead c.env c.task { len := c.len, len_le := c.len_le, off := off, room := c.room } c.s

/-- The bytes the reader got. -/
def ReadResult.bytes (r : ReadResult) : List UInt8 := r.copied.map fun k => r.tempBuffer.getD k 0

/-- The call finds the given list, asks for a byte or more, and nothing fails. -/
structure ListingCall.Served (c : ListingCall δ) (entries : List RcuRestrict) : Prop where
  list : c.s.restrictPathList = entries
  asked : 0 < c.len
  buffer : c.task.alloc 6 = true
  copied : c.len ≤ c.room

/-- Reads of one open file, each from the offset the last one left. -/
def listingSession (calls : Nat → ListingCall δ) : Session UInt8 where
  piece n pos := ((calls n).run pos).bytes
  next n pos := ((calls n).run pos).off

theorem map_range'_getD {l : List UInt8} {pos n : Nat} (h : pos + n ≤ l.length) :
    (List.range' pos n).map (fun k => l.getD k 0) = (l.drop pos).take n := by
  refine List.ext_getElem ?_ ?_
  · rw [List.length_map, List.length_range', List.length_take, List.length_drop]
    omega
  · intro j hj hj'
    rw [List.length_map, List.length_range'] at hj
    rw [List.getElem_map, List.getElem_range', Nat.one_mul, List.getElem_take, List.getElem_drop,
      List.getD_eq_getElem _ _ (by omega)]

/-- The part of the listing that fits, as a call finds it in its buffer. -/
theorem ListingCall.Served.text {c : ListingCall δ} {entries : List RcuRestrict}
    (h : c.Served entries) :
    (renderList 0 c.s.restrictPathList
        { tempBuffer := c.env.kmalloc pathMax, written := 0 }).tempBuffer.take
      (readWritten c.env c.s) = (listing entries).take 4095 := by
  have hholds := (render_holds c.env c.s).text
  rw [h.list] at hholds
  rw [readWritten, h.list, hholds]
  exact listText_take (by decide)

theorem ListingCall.Served.length_text {c : ListingCall δ} {entries : List RcuRestrict}
    (h : c.Served entries) : ((listing entries).take 4095).length = readWritten c.env c.s := by
  have hlen := (render_holds c.env c.s).length
  have hlt := readWritten_lt c.env c.s
  rw [← h.text, List.length_take, hlen]
  exact Nat.min_eq_left (Nat.le_of_lt hlt)

theorem syscallProcRead_off {env : Env} {task : Task δ} {call : ReadCall} {s : State}
    (halloc : task.alloc 6 = true) (hoff : ¬ pathMax ≤ call.off) :
    (syscallProcRead env task call s).off = call.off + copiedBytes env call s := by
  unfold syscallProcRead copiedBytes readWritten
  simp only [halloc, Bool.not_true, Bool.false_eq_true, if_false, if_neg hoff]

/-- What a served call returns: the next bytes of that part, as many as were asked for. -/
theorem ListingCall.Served.run_eq {c : ListingCall δ} {entries : List RcuRestrict}
    (h : c.Served entries) {off : Nat} (hoff : off ≤ ((listing entries).take 4095).length) :
    (c.run off).bytes = (((listing entries).take 4095).drop off).take c.len ∧
      (c.run off).ret = ((c.run off).bytes.length : Int) ∧
      (c.run off).off = off + (c.run off).bytes.length := by
  have hin : off ≤ readWritten c.env c.s := h.length_text ▸ hoff
  have hlt := readWritten_lt c.env c.s
  have hmax : ¬ pathMax ≤ off := Nat.not_le.mpr (Nat.lt_of_le_of_lt hin hlt)
  set call : ReadCall := { len := c.len, len_le := c.len_le, off := off, room := c.room } with hcall
  obtain ⟨hret, hcopied, htemp⟩ :=
    @syscallProcRead_copies δ c.env c.task call c.s h.buffer hmax
  have hoff' := @syscallProcRead_off δ c.env c.task call c.s h.buffer hmax
  -- the reader's buffer has room, so only the end of the text can stop the copy
  have hcount : copiedBytes c.env call c.s = min c.len (readWritten c.env c.s - off) := by
    rw [@copiedBytes_inside c.env call c.s hin]
    exact Nat.min_eq_left (Nat.le_trans (Nat.min_le_left _ _) h.copied)
  have hbytes : (c.run off).bytes = (((listing entries).take 4095).drop off).take c.len := by
    rw [ListingCall.run, ReadResult.bytes, hcopied, htemp, map_range'_getD, hcount,
      ← h.text, List.drop_take, List.take_take]
    show off + copiedBytes c.env call c.s ≤ _
    rw [hcount, (render_holds c.env c.s).length]
    omega
  have hlength : (c.run off).bytes.length = copiedBytes c.env call c.s := by
    rw [hbytes, List.length_take, List.length_drop, h.length_text, hcount]
  refine ⟨hbytes, ?_, ?_⟩
  · rw [hlength]
    exact hret
  · rw [hlength]
    exact hoff'

/-- The calls page through the part of the listing that fits. -/
theorem listingSession_pages {calls : Nat → ListingCall δ} {entries : List RcuRestrict}
    (h : ∀ n, (calls n).Served entries) :
    Pages (listingSession calls) ((listing entries).take 4095) := by
  refine ⟨?_, ?_, ?_, ?_⟩
  · intro n pos hpos
    obtain ⟨hbytes, -, -⟩ := (h n).run_eq (Nat.le_of_lt hpos)
    show ((calls n).run pos).bytes <+: _
    rw [hbytes]
    exact List.take_prefix _ _
  · intro n pos hpos hnil
    obtain ⟨hbytes, -, -⟩ := (h n).run_eq (Nat.le_of_lt hpos)
    have hasked := (h n).asked
    have hlen := congrArg List.length (hbytes.symm.trans hnil)
    rw [List.length_take, List.length_drop, List.length_nil] at hlen
    omega
  · intro n pos hpos
    exact ((h n).run_eq (Nat.le_of_lt hpos)).2.2
  · intro n
    obtain ⟨hbytes, -, hoff⟩ := (h n).run_eq (le_refl _)
    rw [List.drop_length, List.take_nil] at hbytes
    refine ⟨hbytes, ?_⟩
    show ((calls n).run _).off = _
    rw [hoff, hbytes]
    rfl

/-- A reader that starts at offset 0 and finds the same list in every call gets a byte or
more from each call, until the first empty one; by then it has the first 4095 bytes of the
listing, or all of it. -/
theorem listing_read (entries : List RcuRestrict) (calls : Nat → ListingCall δ)
    (h : ∀ n, (calls n).Served entries) :
    ∃ n, ((calls n).run ((listingSession calls).position n)).ret = 0 ∧
      (∀ k < n, 0 < ((calls k).run ((listingSession calls).position k)).ret ∧
        ((calls k).run ((listingSession calls).position k)).ret =
          (((calls k).run ((listingSession calls).position k)).bytes.length : Int)) ∧
      (listingSession calls).gathered n =
        (listing entries).take (min 4095 (listing entries).length) := by
  have hpages := listingSession_pages h
  obtain ⟨n, hend, hbefore, hall⟩ := hpages.reads_whole
  refine ⟨n, ?_, ?_, ?_⟩
  · obtain ⟨hbytes, hret, -⟩ := (h n).run_eq (le_of_eq hend)
    rw [hret, hbytes, hend, List.drop_length, List.take_nil]
    rfl
  · intro k hk
    obtain ⟨-, hret, -⟩ := (h k).run_eq (Nat.le_of_lt (hbefore k hk))
    have hpos := List.length_pos_of_ne_nil (hpages.progress k _ (hbefore k hk))
    refine ⟨?_, hret⟩
    rw [hret]
    exact Int.natCast_pos.mpr hpos
  · rw [hall, ← List.take_eq_take_min]

/-- A list of one entry, and a reader of it who asks for ten bytes at a time. -/
def listedSecret : List RcuRestrict := [sampleEntry (ascii "/home/secret") secret_nul 4]

def sampleListing : ListingCall Nat where
  env := sampleEnv
  task := sampleTask 1000 0
  s := sampleState stateOn true listedSecret
  len := 10
  len_le := ten_le_maxRwCount
  room := 10

theorem listing_read_secret :
    ∃ n, (sampleListing.run ((listingSession fun _ => sampleListing).position n)).ret = 0 ∧
      (∀ k < n, 0 < (sampleListing.run ((listingSession fun _ => sampleListing).position k)).ret ∧
        (sampleListing.run ((listingSession fun _ => sampleListing).position k)).ret =
          ((sampleListing.run ((listingSession fun _ => sampleListing).position k)).bytes.length :
            Int)) ∧
      (listingSession fun _ => sampleListing).gathered n =
        (listing listedSecret).take (min 4095 (listing listedSecret).length) :=
  listing_read listedSecret (fun _ => sampleListing) fun _ => ⟨rfl, by decide, rfl, le_refl _⟩

end RefMonitor
