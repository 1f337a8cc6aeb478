/-
# Buffers and file descriptors

`buffer.cc` and `file_descriptor.cc`. A `Buffer` discards bytes from its front
by moving an offset into a string it shares; a `BufferList` and the views of
one discard from their first members. The sequence of bytes they stand for is
all that their users see (`BufferList.removePrefix_spec`). `write` hands the
views to `writev`, which takes some of the bytes, and goes on with the rest.
The answers of the kernel are an argument; a call that has used them up has
not returned.

Key definitions: `Storage.Buffer`, `Storage.BufferList.removePrefix`,
`FileDescriptor.read`, `FileDescriptor.write`.
Key theorems: `Storage.Buffer.removePrefix_spec`,
`Storage.BufferList.removePrefix_spec`, `FileDescriptor.write_prefix`,
`FileDescriptor.write_all_iff`.
-/
import Sponge.Lib.Chunks
import Sponge.Parser

namespace Sponge
namespace Storage

/-- A shared string and how much of it is discarded. -/
structure Buffer where
  storage : Option Bytes := none
  startingOffset : ℕ := 0
  within : ∀ s ∈ storage, startingOffset ≤ s.length

namespace Buffer

def ofString (s : Bytes) : Buffer where
  storage := some s
  startingOffset := 0
  within := fun _ _ => Nat.zero_le _

def str (b : Buffer) : Bytes :=
  match b.storage with
  | none => []
  | some s => s.drop b.startingOffset

def size (b : Buffer) : ℕ := b.str.length

/-- The offset moved; the string is let go when none of it is left. -/
def advance (b : Buffer) (n : ℕ) (h : n ≤ b.size) : Buffer where
  storage := b.storage.filter fun s => b.startingOffset + n != s.length
  startingOffset := b.startingOffset + n
  within := by
    intro s hs
    obtain ⟨hs, -⟩ := Option.filter_eq_some_iff.mp hs
    have hw := b.within s hs
    simp only [size, str, hs, List.length_drop] at h
    omega

def removePrefix (b : Buffer) (n : ℕ) : Result Unit × Buffer :=
  if h : n ≤ b.size then (.ok (), b.advance n h) else (.error (.outOfRange "Buffer::remove_prefix"), b)

theorem advance_str (b : Buffer) (n : ℕ) (h : n ≤ b.size) : (b.advance n h).str = b.str.drop n := by
  obtain ⟨storage, startingOffset, within⟩ := b
  cases storage with
  | none => exact List.drop_nil.symm
  | some s =>
    have hdrop : (s.drop startingOffset).drop n = s.drop (startingOffset + n) := List.drop_drop
    by_cases hn : startingOffset + n = s.length
    · have hnil : s.drop (startingOffset + n) = [] := List.drop_of_length_le hn.ge
      rw [str, str, hdrop, hnil]
      simp [advance, hn, Option.filter_some]
    · rw [str, str, hdrop]
      simp [advance, hn, Option.filter_some]

/-- A buffer discards what it is told, if it has that much. -/
theorem removePrefix_spec (b : Buffer) (n : ℕ) :
    ((b.removePrefix n).1 = .ok () ↔ n ≤ b.size) ∧
      (b.removePrefix n).2.str = if n ≤ b.size then b.str.drop n else b.str := by
  unfold removePrefix
  split_ifs with h
  · exact ⟨iff_of_true rfl h, advance_str b n h⟩
  · exact ⟨iff_of_false (fun hc => by cases hc) h, rfl⟩

end Buffer

/-- The loop over the members of a list: those used up go, and the next one is
cut. -/
def removeFront {β : Type} (str : β → Bytes) (cut : β → ℕ → β) (what : String) (bufs : List β) (n : ℕ) :
    Result Unit × List β :=
  let (bufs, missing) := Chunks.discard str cut bufs n
  (if missing = 0 then .ok () else .error (.outOfRange what), bufs)

theorem removeFront_spec {β : Type} {str : β → Bytes} {cut : β → ℕ → β} (what : String)
    (hcut : ∀ b n, n < (str b).length → str (cut b n) = (str b).drop n) (bufs : List β) (n : ℕ) :
    ((removeFront str cut what bufs n).1 = .ok () ↔ n ≤ (Chunks.contents str bufs).length) ∧
      Chunks.contents str (removeFront str cut what bufs n).2 = (Chunks.contents str bufs).drop n := by
  refine ⟨?_, Chunks.contents_discard hcut bufs n⟩
  unfold removeFront
  dsimp only
  rw [Chunks.discard_snd]
  split_ifs with h
  · exact iff_of_true rfl (Nat.sub_eq_zero_iff_le.mp h)
  · exact iff_of_false (fun hc => by cases hc) fun hc => h (Nat.sub_eq_zero_iff_le.mpr hc)

/-- The buffers of a list; `append` is that of lists. -/
abbrev BufferList := List Buffer

namespace BufferList

def concatenate (bufs : BufferList) : Bytes := Chunks.contents Buffer.str bufs

def size (bufs : BufferList) : ℕ := (bufs.map Buffer.size).sum

def removePrefix : BufferList → ℕ → Result Unit × BufferList :=
  removeFront Buffer.str (fun b n => (b.removePrefix n).2) "BufferList::remove_prefix"

theorem size_eq (bufs : BufferList) : bufs.size = bufs.concatenate.length := List.length_flatMap.symm

theorem concatenate_append (bufs other : BufferList) :
    concatenate (bufs ++ other) = bufs.concatenate ++ other.concatenate := Chunks.contents_append bufs other

/-- **A list of buffers discards bytes as a string does**, and throws if it is
to discard more than it has. -/
theorem removePrefix_spec (bufs : BufferList) (n : ℕ) :
    ((bufs.removePrefix n).1 = .ok () ↔ n ≤ bufs.size) ∧
      (bufs.removePrefix n).2.concatenate = bufs.concatenate.drop n := by
  rw [size_eq]
  apply removeFront_spec
  intro b n hn
  exact ((b.removePrefix_spec n).2).trans (if_pos hn.le)

end BufferList

/-- The views of the buffers of a list. -/
abbrev BufferViewList := Sponge.BufferList

namespace BufferViewList

def ofBufferList (bufs : BufferList) : BufferViewList := bufs.map Buffer.str

def removePrefix : BufferViewList → ℕ → Result Unit × BufferViewList :=
  removeFront id (fun view n => view.drop n) "BufferListView::remove_prefix"

theorem ofBufferList_concatenate (bufs : BufferList) : (ofBufferList bufs).concatenate = bufs.concatenate :=
  List.flatMap_def.symm

theorem removePrefix_spec (views : BufferViewList) (n : ℕ) :
    ((removePrefix views n).1 = .ok () ↔ n ≤ views.size) ∧
      (removePrefix views n).2.concatenate = views.concatenate.drop n := by
  have h := @removeFront_spec Bytes id (fun view n => view.drop n) "BufferListView::remove_prefix"
    (fun _ _ _ => rfl) views n
  simp only [Chunks.contents, List.flatMap_id] at h
  rw [Sponge.BufferList.size_eq]
  exact h

end BufferViewList
end Storage

open Storage (BufferViewList)

/-- What was read from a descriptor and written to it, its flags, and how often
it was read and written. -/
structure FileDescriptor where
  got : Bytes := []
  put : Bytes := []
  eof : Bool := false
  closed : Bool := false
  readCount : ℕ := 0
  writeCount : ℕ := 0
  deriving DecidableEq

namespace FileDescriptor

/-- `read`, when the system call answers so. -/
def read (fd : FileDescriptor) (answer : Result Bytes) (limit : ℕ) : Result Bytes × FileDescriptor :=
  let sizeToRead := min (1024 * 1024) limit
  match answer with
  | .error e => (.error e, fd)
  | .ok data =>
    let eof := fd.eof || (decide (0 < limit) && data.isEmpty)
    if sizeToRead < data.length then (.error (.runtimeError "read() read more than requested"), { fd with eof })
    else (.ok data, { fd with got := fd.got ++ data, eof, readCount := fd.readCount + 1 })

/-- The loop of `write`, for the answers that `writev` gives; `none` if it has
not answered yet. -/
def writeLoop (writeAll : Bool) : List (Result ℕ) → BufferViewList → ℕ → FileDescriptor →
    Option (Result ℕ) × FileDescriptor
  | [], _, _, fd => (none, fd)
  | .error e :: _, _, _, fd => (some (.error e), fd)
  | .ok n :: answers, buffer, total, fd =>
    if n = 0 ∧ buffer.size ≠ 0 then
      (some (.error (.runtimeError "write returned 0 given non-empty input buffer")), fd)
    else if buffer.size < n then
      (some (.error (.runtimeError "write wrote more than length of input buffer")), fd)
    else
      let fd := { fd with put := fd.put ++ buffer.concatenate.take n, writeCount := fd.writeCount + 1 }
      match BufferViewList.removePrefix buffer n with
      | (.error e, _) => (some (.error e), fd)
      | (.ok _, buffer) =>
        if writeAll ∧ buffer.size ≠ 0 then writeLoop writeAll answers buffer (total + n) fd
        else (some (.ok (total + n)), fd)

def write (fd : FileDescriptor) (buffer : BufferViewList) (writeAll : Bool) (answers : List (Result ℕ)) :
    Option (Result ℕ) × FileDescriptor := writeLoop writeAll answers buffer 0 fd

def close (fd : FileDescriptor) : FileDescriptor := { fd with eof := true, closed := true }

/-! ### What a read takes in -/

theorem read_ok {fd : FileDescriptor} {answer : Result Bytes} {limit : ℕ} {data : Bytes}
    (h : (fd.read answer limit).1 = .ok data) : data.length ≤ limit ∧
      (fd.read answer limit).2.got = fd.got ++ data ∧ (fd.read answer limit).2.put = fd.put ∧
      (fd.read answer limit).2.closed = fd.closed ∧ (fd.eof = true → (fd.read answer limit).2.eof = true) := by
  cases answer with
  | error e => cases h
  | ok data' =>
    unfold read at h ⊢
    dsimp only at h ⊢
    split_ifs at h ⊢ with hlen
    obtain rfl := Except.ok.inj h
    exact ⟨(not_lt.mp hlen).trans (min_le_right _ _), rfl, rfl, rfl, fun he => by simp [he]⟩

/-! ### What a write puts out -/

variable {writeAll : Bool} {answers : List (Result ℕ)} {buffer : BufferViewList} {total : ℕ} {fd fd' : FileDescriptor}

/-- The descriptor after `writev` took `n` bytes. -/
def took (fd : FileDescriptor) (buffer : BufferViewList) (n : ℕ) : FileDescriptor :=
  { fd with put := fd.put ++ buffer.concatenate.take n, writeCount := fd.writeCount + 1 }

/-- An answer that makes sense is acted on: the rest is written, or the loop
is done. -/
theorem writeLoop_cons {n : ℕ} (hpos : 0 < n ∨ buffer.size = 0) (hle : n ≤ buffer.size) :
    ∃ rest : BufferViewList, rest.concatenate = buffer.concatenate.drop n ∧
      writeLoop writeAll (.ok n :: answers) buffer total fd =
        if writeAll ∧ rest.size ≠ 0 then writeLoop writeAll answers rest (total + n) (fd.took buffer n)
        else (some (.ok (total + n)), fd.took buffer n) := by
  obtain ⟨hok, hrest⟩ := BufferViewList.removePrefix_spec buffer n
  have hzero : ¬ (n = 0 ∧ buffer.size ≠ 0) := by omega
  have hpair : buffer.removePrefix n = (.ok (), (buffer.removePrefix n).2) := Prod.ext (hok.mpr hle) rfl
  refine ⟨_, hrest, ?_⟩
  conv_lhs => unfold writeLoop
  rw [if_neg hzero, if_neg (not_lt.mpr hle), hpair]
  rfl

/-- An answer that makes none is thrown at. -/
theorem writeLoop_cons_error {n : ℕ} (h : ¬ ((0 < n ∨ buffer.size = 0) ∧ n ≤ buffer.size)) :
    ∃ e, writeLoop writeAll (.ok n :: answers) buffer total fd = (some (.error e), fd) := by
  unfold writeLoop
  split_ifs with h0 h1
  · exact ⟨_, rfl⟩
  · exact ⟨_, rfl⟩
  · exact absurd ⟨by omega, not_lt.mp h1⟩ h

/-- What a write leaves alone. -/
theorem write_frame (fd : FileDescriptor) (buffer : BufferViewList) (writeAll : Bool) (answers : List (Result ℕ)) :
    (fd.write buffer writeAll answers).2.got = fd.got ∧ (fd.write buffer writeAll answers).2.eof = fd.eof ∧
      (fd.write buffer writeAll answers).2.closed = fd.closed ∧
      (fd.write buffer writeAll answers).2.readCount = fd.readCount := by
  suffices key : ∀ (answers : List (Result ℕ)) (buffer : BufferViewList) (total : ℕ) (fd : FileDescriptor),
      (writeLoop writeAll answers buffer total fd).2.got = fd.got ∧
        (writeLoop writeAll answers buffer total fd).2.eof = fd.eof ∧
        (writeLoop writeAll answers buffer total fd).2.closed = fd.closed ∧
        (writeLoop writeAll answers buffer total fd).2.readCount = fd.readCount from key answers buffer 0 fd
  intro answers
  induction answers with
  | nil => exact fun _ _ _ => ⟨rfl, rfl, rfl, rfl⟩
  | cons answer answers ih =>
    intro buffer total fd
    cases answer with
    | error e => exact ⟨rfl, rfl, rfl, rfl⟩
    | ok n =>
      unfold writeLoop
      dsimp only
      split_ifs
      · exact ⟨rfl, rfl, rfl, rfl⟩
      · exact ⟨rfl, rfl, rfl, rfl⟩
      · split
        · exact ⟨rfl, rfl, rfl, rfl⟩
        · split_ifs
          · exact ih _ _ _
          · exact ⟨rfl, rfl, rfl, rfl⟩

/-- One call of `writev` is enough unless all is to be written. -/
theorem write_isSome (fd : FileDescriptor) (buffer : BufferViewList) (answer : Result ℕ) :
    (fd.write buffer false [answer]).1.isSome = true := by
  cases answer with
  | error e => rfl
  | ok n =>
    unfold write writeLoop
    dsimp only
    split_ifs
    · rfl
    · rfl
    · split
      · rfl
      · rw [if_neg fun hc => hc.1]
        rfl

/-- **However often `writev` is called, the bytes put out are a beginning of
those to be written**, and what a call of `write` says it wrote. -/
theorem write_prefix (fd : FileDescriptor) (buffer : BufferViewList) (writeAll : Bool) (answers : List (Result ℕ)) :
    ∃ k ≤ buffer.size, (fd.write buffer writeAll answers).2.put = fd.put ++ buffer.concatenate.take k ∧
      ∀ total, (fd.write buffer writeAll answers).1 = some (.ok total) →
        total = k ∧ (writeAll = true → k = buffer.size) := by
  suffices key : ∀ (answers : List (Result ℕ)) (buffer : BufferViewList) (total : ℕ) (fd : FileDescriptor),
      ∃ k ≤ buffer.size, (writeLoop writeAll answers buffer total fd).2.put = fd.put ++ buffer.concatenate.take k ∧
        ∀ t, (writeLoop writeAll answers buffer total fd).1 = some (.ok t) →
          t = total + k ∧ (writeAll = true → k = buffer.size) by
    obtain ⟨k, hk, hput, hret⟩ := key answers buffer 0 fd
    exact ⟨k, hk, hput, fun t ht => by simpa using hret t ht⟩
  intro answers
  induction answers with
  | nil => exact fun buffer total fd => ⟨0, Nat.zero_le _, by simp [writeLoop], fun t ht => by cases ht⟩
  | cons answer answers ih =>
    intro buffer total fd
    cases answer with
    | error e => exact ⟨0, Nat.zero_le _, by simp [writeLoop], fun t ht => by cases ht⟩
    | ok n =>
      by_cases hn : (0 < n ∨ buffer.size = 0) ∧ n ≤ buffer.size
      · obtain ⟨rest, hrest, heq⟩ := @writeLoop_cons writeAll answers buffer total fd n hn.1 hn.2
        have hsize : rest.size = buffer.size - n := by
          rw [BufferList.size_eq, BufferList.size_eq, hrest, List.length_drop]
        rw [heq]
        split_ifs with hmore
        · obtain ⟨k, hk, hput, hret⟩ := ih rest (total + n) (fd.took buffer n)
          refine ⟨n + k, by omega, ?_, fun t ht => ?_⟩
          · rw [hput, took, hrest, List.append_assoc, ← List.take_add]
          · obtain ⟨h1, h2⟩ := hret t ht
            exact ⟨by omega, fun hw => by have := h2 hw; omega⟩
        · refine ⟨n, hn.2, rfl, fun t ht => ?_⟩
          obtain rfl := Except.ok.inj (Option.some.inj ht)
          refine ⟨rfl, fun hw => ?_⟩
          have hdone : rest.size = 0 := by
            by_contra hc
            exact hmore ⟨hw, hc⟩
          omega
      · obtain ⟨e, he⟩ := @writeLoop_cons_error writeAll answers buffer total fd n hn
        rw [he]
        exact ⟨0, Nat.zero_le _, by simp, fun t ht => by cases ht⟩

/-- The calls of `writev` take `size` bytes, each some of them; a single call is
made if there are none. -/
def UsesUp (size : ℕ) (ns : List ℕ) : Prop := ns = [0] ∧ size = 0 ∨ ns ≠ [] ∧ (∀ n ∈ ns, 0 < n) ∧ ns.sum = size

theorem not_usesUp_nil (size : ℕ) : ¬ UsesUp size [] := by
  simp [UsesUp]

theorem usesUp_cons (size n : ℕ) (ns : List ℕ) : UsesUp size (n :: ns) ↔
    ((0 < n ∨ size = 0) ∧ n ≤ size) ∧ if size - n = 0 then ns = [] else UsesUp (size - n) ns := by
  unfold UsesUp
  constructor
  · rintro (⟨h, rfl⟩ | ⟨-, hpos, hsum⟩)
    · obtain ⟨rfl, rfl⟩ := List.cons.inj h
      simp
    · obtain ⟨hn, hpos⟩ := List.forall_mem_cons.mp hpos
      rw [List.sum_cons] at hsum
      refine ⟨⟨Or.inl hn, by omega⟩, ?_⟩
      cases ns with
      | nil =>
        rw [List.sum_nil] at hsum
        rw [if_pos (by omega)]
      | cons m ns =>
        have hm := hpos m List.mem_cons_self
        rw [List.sum_cons] at hsum
        rw [if_neg (by omega)]
        exact Or.inr ⟨List.cons_ne_nil _ _, hpos, by rw [List.sum_cons]; omega⟩
  · rintro ⟨⟨hn, hle⟩, hrest⟩
    split_ifs at hrest with h
    · subst hrest
      rcases Nat.eq_zero_or_pos n with rfl | hpos
      · exact Or.inl ⟨rfl, by omega⟩
      · exact Or.inr ⟨List.cons_ne_nil _ _, by simpa using hpos, by rw [List.sum_singleton]; omega⟩
    · rcases hrest with ⟨-, h0⟩ | ⟨hne, hpos, hsum⟩
      · exact absurd h0 h
      · exact Or.inr ⟨List.cons_ne_nil _ _, List.forall_mem_cons.mpr ⟨by omega, hpos⟩, by rw [List.sum_cons]; omega⟩

/-- The descriptor after `writev` took all of the buffer in `calls` calls. -/
def tookAll (fd : FileDescriptor) (buffer : BufferViewList) (calls : ℕ) : FileDescriptor :=
  { fd with put := fd.put ++ buffer.concatenate, writeCount := fd.writeCount + calls }

theorem tookAll_one (fd : FileDescriptor) (buffer : BufferViewList) :
    fd.tookAll buffer 1 = fd.took buffer buffer.size := by
  rw [tookAll, took, BufferList.size_eq, List.take_length]

theorem tookAll_succ (fd : FileDescriptor) {buffer rest : BufferViewList} {n : ℕ}
    (h : rest.concatenate = buffer.concatenate.drop n) (calls : ℕ) :
    (fd.took buffer n).tookAll rest calls = fd.tookAll buffer (calls + 1) := by
  simp [tookAll, took, h, Nat.add_assoc, Nat.add_comm 1]

/-- **`write` returns when all is written, and only then**: the calls of
`writev` took the bytes of all buffers, in order and each once. -/
theorem write_all_iff (fd fd' : FileDescriptor) (buffer : BufferViewList) (answers : List (Result ℕ)) (total : ℕ) :
    fd.write buffer true answers = (some (.ok total), fd') ↔ total = buffer.size ∧
      ∃ ns rest, answers = ns.map .ok ++ rest ∧ UsesUp buffer.size ns ∧ fd' = fd.tookAll buffer ns.length := by
  suffices key : ∀ (answers : List (Result ℕ)) (buffer : BufferViewList) (t : ℕ) (fd : FileDescriptor),
      writeLoop true answers buffer t fd = (some (.ok total), fd') ↔ total = t + buffer.size ∧
        ∃ ns rest, answers = ns.map .ok ++ rest ∧ UsesUp buffer.size ns ∧ fd' = fd.tookAll buffer ns.length by
    rw [write, key, Nat.zero_add]
  intro answers
  induction answers with
  | nil =>
    intro buffer t fd
    refine iff_of_false (fun hc => by cases hc) ?_
    rintro ⟨-, ns, rest, h, hns, -⟩
    rw [List.map_eq_nil_iff.mp (List.append_eq_nil_iff.mp h.symm).1] at hns
    exact not_usesUp_nil _ hns
  | cons answer answers ih =>
    intro buffer t fd
    -- the first answer is the first call
    have hfirst : (∃ ns rest, answer :: answers = ns.map .ok ++ rest ∧ UsesUp buffer.size ns ∧
        fd' = fd.tookAll buffer ns.length) ↔ ∃ n ns rest, answer = .ok n ∧ answers = ns.map .ok ++ rest ∧
          UsesUp buffer.size (n :: ns) ∧ fd' = fd.tookAll buffer (ns.length + 1) := by
      constructor
      · rintro ⟨ns, rest, h, hns, hfd⟩
        cases ns with
        | nil => exact absurd hns (not_usesUp_nil _)
        | cons n ns =>
          obtain ⟨h1, h2⟩ := List.cons.inj h
          exact ⟨n, ns, rest, h1, h2, hns, hfd⟩
      · rintro ⟨n, ns, rest, rfl, rfl, hns, hfd⟩
        exact ⟨n :: ns, rest, rfl, hns, hfd⟩
    rw [hfirst]
    cases answer with
    | error e => exact iff_of_false (fun hc => by cases hc) fun ⟨_, _, _, _, h, _⟩ => by cases h
    | ok n =>
      simp only [Except.ok.injEq, usesUp_cons]
      by_cases hn : (0 < n ∨ buffer.size = 0) ∧ n ≤ buffer.size
      · obtain ⟨rest, hrest, heq⟩ := @writeLoop_cons true answers buffer t fd n hn.1 hn.2
        have hsize : rest.size = buffer.size - n := by
          rw [BufferList.size_eq, BufferList.size_eq, hrest, List.length_drop]
        rw [heq]
        by_cases hmore : rest.size = 0
        · have hall : n = buffer.size := by omega
          rw [if_neg (fun hc => hc.2 hmore)]
          have hone : fd.tookAll buffer 1 = fd.took buffer n := by rw [tookAll_one, hall]
          constructor
          · intro h
            obtain ⟨h1, rfl⟩ := Prod.mk.inj h
            obtain rfl := Except.ok.inj (Option.some.inj h1)
            refine ⟨by rw [hall], n, [], answers, rfl, rfl, ⟨hn, ?_⟩, hone.symm⟩
            rw [if_pos (by omega)]
          · rintro ⟨rfl, m, ns, rest', rfl, -, ⟨-, hns⟩, rfl⟩
            rw [if_pos (by omega)] at hns
            rw [hns, List.length_nil, hone, hall]
        · rw [if_pos ⟨rfl, hmore⟩, ih, hsize]
          constructor
          · rintro ⟨rfl, ns, rest', h, hns, rfl⟩
            refine ⟨by omega, n, ns, rest', rfl, h, ⟨hn, ?_⟩, tookAll_succ fd hrest _⟩
            rwa [if_neg (by omega)]
          · rintro ⟨rfl, m, ns, rest', rfl, h, ⟨-, hns⟩, rfl⟩
            rw [if_neg (by omega)] at hns
            exact ⟨by omega, ns, rest', h, hns, (tookAll_succ fd hrest _).symm⟩
      · obtain ⟨e, he⟩ := @writeLoop_cons_error true answers buffer t fd n hn
        rw [he]
        exact iff_of_false (fun hc => by cases hc) fun ⟨_, m, _, _, h, _, hc, _⟩ => hn (h ▸ hc.1)

end FileDescriptor
end Sponge
