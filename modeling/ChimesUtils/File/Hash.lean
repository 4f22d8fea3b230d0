import ChimesUtils.Rust

/-!
# The hash of a file

`calc_file_hash` reads a file through one buffer of 1 MiB and hands each read to the hasher, with other
code for a full buffer than for a part of it. The hasher and the hexadecimal encoder are parameters.

* `hashLoop_data`: one read gives the hasher just its own bytes;
* `hashLoop_reads`: a run of reads gives it their bytes in order;
* `calcFileHash_reads`: the result for every way in which the reads split the content.
-/

namespace ChimesUtils

/-- The functions of `openssl::sha::Sha256`. -/
structure Sha256 where
  State : Type
  new : State
  update : State → Bytes → State
  finish : State → Bytes

namespace Sha256

/-- The digest of bytes that come at once. -/
def digest (S : Sha256) (b : Bytes) : Bytes := S.finish (S.update S.new b)

/-- The hasher sees the bytes, and not how they are split. -/
structure Incremental (S : Sha256) : Prop where
  update_append : ∀ h a b, S.update (S.update h a) b = S.update h (a ++ b)
  update_nil : ∀ h, S.update h [] = h

end Sha256

/-- What `file.read` gives: the bytes that it wrote to the front of the buffer, or an error. -/
inductive ReadOutcome where
  | data (bytes : Bytes)
  | err

/-- The size of the buffer. -/
def bufferSize : ℕ := 1024 * 1024

/-- The buffer after a read: what was there before stays behind the new bytes. -/
def fill (buffer bytes : Bytes) : Bytes := bytes ++ buffer.drop bytes.length

section Source

variable (S : Sha256) (encode : Bytes → Text)

/-- The loop of `calc_file_hash`, with the reads to come. After them the file is at its end, where
`read` gives zero bytes. -/
def hashLoop : List ReadOutcome → Bytes → S.State → Option S.State
  | [], _, hasher => some hasher
  | .err :: _, _, _ => none
  | .data bytes :: reads, buffer, hasher =>
    let buffer := fill buffer bytes
    let ts := bytes.length
    if ts = bufferSize then hashLoop reads buffer (S.update hasher buffer)
    else if 0 < ts then hashLoop reads buffer (S.update hasher (buffer.take ts))
    else some hasher

/-- `calc_file_hash`, with the reads of the file if it can be opened. -/
def calcFileHash (file : Option (List ReadOutcome)) : Option Text :=
  file.bind fun reads =>
    (hashLoop S reads (List.replicate bufferSize 0) S.new).map fun hasher => encode (S.finish hasher)

end Source

/-- The reads of a content, with the number of bytes that each of them gives. -/
def readsOf (sizes : List ℕ) (content : Bytes) : List ReadOutcome :=
  (sizes.splitLengths content).map .data

/-- Hexadecimal digits: two for each byte, in lower case. -/
def hexText (b : Bytes) : Text :=
  b.flatMap fun x => [Nat.digitChar (x.toNat / 16), Nat.digitChar (x.toNat % 16)]

/-! ## The loop -/

/-- A number of bytes that a read can give before the end of the file. -/
def IsReadSize (n : ℕ) : Prop := 1 ≤ n ∧ n ≤ bufferSize

instance (n : ℕ) : Decidable (IsReadSize n) := inferInstanceAs (Decidable (1 ≤ n ∧ n ≤ bufferSize))

section Loop

variable {S : Sha256} {bytes buffer : Bytes}

theorem length_fill (hbytes : bytes.length ≤ bufferSize) (hbuffer : buffer.length = bufferSize) :
    (fill buffer bytes).length = bufferSize := by
  unfold fill
  rw [List.length_append, List.length_drop]
  omega

/-- **One read.** Nothing of an earlier read reaches the hasher. -/
theorem hashLoop_data (hbytes : IsReadSize bytes.length) (hbuffer : buffer.length = bufferSize)
    (rest : List ReadOutcome) (hasher : S.State) :
    hashLoop S (.data bytes :: rest) buffer hasher =
      hashLoop S rest (fill buffer bytes) (S.update hasher bytes) := by
  conv_lhs => unfold hashLoop
  by_cases hfull : bytes.length = bufferSize
  · have hnew : fill buffer bytes = bytes := by
      unfold fill
      rw [List.drop_of_length_le (by omega), List.append_nil]
    simp only [if_pos hfull, hnew]
  · have hnew : (fill buffer bytes).take bytes.length = bytes := List.take_left
    have hpos : 0 < bytes.length := hbytes.1
    simp only [if_neg hfull, if_pos hpos, hnew]

/-- **Reads.** The hasher gets the bytes of all of them, in their order. -/
theorem hashLoop_reads (hS : S.Incremental) {parts : List Bytes}
    (hparts : ∀ part ∈ parts, IsReadSize part.length) (hbuffer : buffer.length = bufferSize)
    (hasher : S.State) :
    ∃ buffer' : Bytes, ∀ rest, hashLoop S (parts.map .data ++ rest) buffer hasher =
      hashLoop S rest buffer' (S.update hasher parts.flatten) := by
  induction parts generalizing buffer hasher with
  | nil => exact ⟨buffer, fun rest => by rw [List.flatten_nil, hS.update_nil]; rfl⟩
  | cons part parts ih =>
    obtain ⟨hpart, hparts⟩ := List.forall_mem_cons.mp hparts
    obtain ⟨buffer', hrun⟩ := ih hparts (length_fill hpart.2 hbuffer) (S.update hasher part)
    refine ⟨buffer', fun rest => ?_⟩
    rw [List.map_cons, List.cons_append, hashLoop_data hpart hbuffer, hrun, hS.update_append,
      List.flatten_cons]

end Loop

/-! ## The file -/

section File

variable {S : Sha256} {encode : Bytes → Text} {sizes : List ℕ} {content : Bytes}

theorem isReadSize_of_mem (hsizes : ∀ n ∈ sizes, IsReadSize n) (hsum : sizes.sum ≤ content.length) :
    ∀ part ∈ sizes.splitLengths content, IsReadSize part.length := by
  intro part hpart
  have hmem := List.mem_map_of_mem (f := List.length) hpart
  rw [List.map_splitLengths_length content sizes hsum] at hmem
  exact hsizes _ hmem

/-- **Hash.** For every content and every way to split it into reads, the result is the hexadecimal text
of the digest of the whole; if a read fails, there is none. -/
theorem calcFileHash_reads (hS : S.Incremental) (hencode : ∀ b, encode b = hexText b)
    (hsizes : ∀ n ∈ sizes, IsReadSize n) :
    (sizes.sum = content.length →
      calcFileHash S encode (some (readsOf sizes content)) = some (hexText (S.digest content))) ∧
    (sizes.sum ≤ content.length → ∀ later,
      calcFileHash S encode (some (readsOf sizes content ++ .err :: later)) = none) := by
  have hrun (hsum : sizes.sum ≤ content.length) := hashLoop_reads hS
    (isReadSize_of_mem hsizes hsum) (List.length_replicate (a := 0)) S.new
  constructor
  · intro hsum
    obtain ⟨buffer', hrun⟩ := hrun hsum.le
    have hloop := hrun []
    rw [List.append_nil, List.flatten_splitLengths content sizes hsum.ge] at hloop
    show (hashLoop S (readsOf sizes content) _ S.new).map _ = _
    unfold readsOf
    rw [hloop, hashLoop, Option.map_some, hencode]
    rfl
  · intro hsum later
    obtain ⟨buffer', hrun⟩ := hrun hsum
    show (hashLoop S (readsOf sizes content ++ .err :: later) _ S.new).map _ = _
    unfold readsOf
    rw [hrun, hashLoop, Option.map_none]

end File

/-- A hasher that collects the bytes, and knows the digest of `abc`. -/
def collecting : Sha256 where
  State := Bytes
  new := []
  update h b := h ++ b
  finish h :=
    if h = [0x61, 0x62, 0x63] then
      [0xba, 0x78, 0x16, 0xbf, 0x8f, 0x01, 0xcf, 0xea, 0x41, 0x41, 0x40, 0xde, 0x5d, 0xae, 0x22, 0x23,
        0xb0, 0x03, 0x61, 0xa3, 0x96, 0x17, 0x7a, 0x9c, 0xb4, 0x10, 0xff, 0x61, 0xf2, 0x00, 0x15, 0xad]
    else []

theorem collecting_incremental : collecting.Incremental where
  update_append := List.append_assoc
  update_nil := List.append_nil

/-- The file `abc` in two reads, the second of which may fail. -/
theorem calcFileHash_reads_abc :
    calcFileHash collecting hexText (some (readsOf [1, 2] [0x61, 0x62, 0x63])) =
        some "ba7816bf8f01cfea414140de5dae2223b00361a396177a9cb410ff61f20015ad".toList ∧
      calcFileHash collecting hexText (some (readsOf [1] [0x61, 0x62, 0x63] ++ [.err])) = none := by
  have hsizes : ∀ n ∈ [1, 2], IsReadSize n := by decide
  have hdigest : hexText (collecting.digest [0x61, 0x62, 0x63]) =
      "ba7816bf8f01cfea414140de5dae2223b00361a396177a9cb410ff61f20015ad".toList := by decide
  refine ⟨?_, ?_⟩
  · rw [← hdigest]
    exact (calcFileHash_reads collecting_incremental (fun _ => rfl) hsizes).1 rfl
  · exact (calcFileHash_reads collecting_incremental (fun _ => rfl)
      fun n hn => hsizes n (List.mem_of_mem_take (i := 1) hn)).2 (by decide) []

end ChimesUtils
