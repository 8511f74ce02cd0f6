import Mathlib.Data.List.Basic

/-!
# Files and buffered streams

A file is a sequence of bytes of which some are known to have reached the disk. Between two
syncs it has had several contents, and a crash may leave any of them, cut anywhere beyond
what was synced and not touched since (`Stdio.File.survive`).

A stream over a file holds bytes back: what is written to it goes to its buffer first, and
from there to the file, in order, at the stream's position. Every operation takes the
environment's answer as an argument – whether it fails, and how far it got – so nothing is
assumed of an operation but what is written here: bytes arrive in the order in which they
were written, the buffer is empty once a flush has returned, whether or not it failed, and
a successful truncation sets the length exactly.

A stream that only ever appends is described by `Stdio.Stream.Appending`: what the file had
at some point, and what has been accepted since, which the file has in part and the buffer
has the rest of.
-/

namespace Stdio

/-! ### Contents -/

/-- Writing at an offset; a gap is filled with zeros. -/
def overwrite (c : List UInt8) (pos : Nat) (data : List UInt8) : List UInt8 :=
  let c := c ++ List.replicate (pos - c.length) 0
  c.take pos ++ data ++ c.drop (pos + data.length)

/-- Setting the length; what is missing is filled with zeros. -/
def resize (c : List UInt8) (n : Nat) : List UInt8 :=
  c.take n ++ List.replicate (n - c.length) 0

variable {c c' d : List UInt8} {m n pos : Nat}

@[simp] theorem overwrite_end : overwrite c c.length d = c ++ d := by simp [overwrite]

theorem resize_of_le (h : n ≤ c.length) : resize c n = c.take n := by
  simp [resize, Nat.sub_eq_zero_of_le h]

theorem take_overwrite (hc : n ≤ c.length) (hpos : n ≤ pos) :
    (overwrite c pos d).take n = c.take n := by
  have hlen : n ≤ ((c ++ List.replicate (pos - c.length) 0).take pos).length := by
    simp only [List.length_take, List.length_append, List.length_replicate]
    omega
  rw [overwrite, List.append_assoc, List.take_append_of_le_length hlen, List.take_take,
    Nat.min_eq_left hpos, List.take_append_of_le_length hc]

theorem take_resize (hc : m ≤ c.length) (hn : m ≤ n) : (resize c n).take m = c.take m := by
  have hlen : m ≤ (c.take n).length := by
    simp only [List.length_take]
    omega
  rw [resize, List.take_append_of_le_length hlen, List.take_take, Nat.min_eq_left hn]

theorem le_length_of_take_eq (h : c'.take n = c.take n) (hn : n ≤ c.length) : n ≤ c'.length := by
  have := congrArg List.length h
  simp only [List.length_take] at this
  omega

/-! ### Files -/

/-- A file. -/
structure File where
  /-- What a process reads. -/
  bytes : List UInt8 := []
  /-- How many of the first bytes are on the disk and have not been touched since. -/
  synced : Nat := 0
  /-- The earlier contents since the last sync. -/
  past : List (List UInt8) := []
  synced_le : synced ≤ bytes.length := by simp
  /-- What is on the disk has been there all along. -/
  solid : ∀ c ∈ past, bytes.take synced <+: c := by simp
  deriving DecidableEq

namespace File

variable (f : File)

/-- Another content, which agrees with this one on the first `n` bytes. -/
def revise (c : List UInt8) (n : Nat) (hn : n ≤ f.synced) (h : c.take n = f.bytes.take n) :
    File where
  bytes := c
  synced := n
  past := f.bytes :: f.past
  synced_le := le_length_of_take_eq h (Nat.le_trans hn f.synced_le)
  solid := by
    intro d hd
    rw [h]
    rcases List.mem_cons.mp hd with rfl | hd
    · exact List.take_prefix _ _
    · exact List.IsPrefix.trans (List.take_prefix_take_left hn) (f.solid d hd)

/-- Writing at an offset; to write nothing changes nothing. -/
def put (pos : Nat) (data : List UInt8) : File :=
  if data = [] then f
  else
    f.revise (overwrite f.bytes pos data) (min f.synced pos) (Nat.min_le_left _ _)
      (take_overwrite (Nat.le_trans (Nat.min_le_left _ _) f.synced_le) (Nat.min_le_right _ _))

/-- `ftruncate`. -/
def cut (n : Nat) : File :=
  f.revise (resize f.bytes n) (min f.synced n) (Nat.min_le_left _ _)
    (take_resize (Nat.le_trans (Nat.min_le_left _ _) f.synced_le) (Nat.min_le_right _ _))

/-- `fsync`. -/
def sync : File where
  bytes := f.bytes
  synced := f.bytes.length
  synced_le := Nat.le_refl _

/-- Every content since the last sync. -/
def contents : List (List UInt8) := f.bytes :: f.past

theorem solid_contents {c : List UInt8} (h : c ∈ f.contents) : f.bytes.take f.synced <+: c := by
  rcases List.mem_cons.mp h with rfl | h
  · exact List.take_prefix _ _
  · exact f.solid c h

theorem getD_mem_contents (k : Nat) : f.contents.getD k f.bytes ∈ f.contents := by
  rw [List.getD_eq_getElem?_getD]
  rcases h : f.contents[k]? with _ | c
  · exact List.mem_cons_self
  · exact List.mem_of_getElem? h

/-- What a crash leaves: one of the contents since the last sync, cut after `n` bytes but not
into what is on the disk. -/
def survive (k n : Nat) : File where
  bytes := (f.contents.getD k f.bytes).take (max n f.synced)
  synced := f.synced
  synced_le := by
    have hle := (f.solid_contents (f.getD_mem_contents k)).length_le
    have := f.synced_le
    simp only [List.length_take] at hle ⊢
    omega

/-! ### What every crash leaves -/

/-- Whatever a crash leaves of the file begins with `sec`, and `t` begins with it. -/
structure Within (sec t : List UInt8) : Prop where
  kept : sec <+: f.bytes
  synced : sec.length ≤ f.synced
  limit : ∀ c ∈ f.contents, c <+: t

variable {f} {sec t t' : List UInt8} {k : Nat}

theorem Within.bytes (h : f.Within sec t) : f.bytes <+: t := h.limit _ List.mem_cons_self

theorem Within.mono (h : f.Within sec t) (ht : t <+: t') : f.Within sec t' :=
  ⟨h.kept, h.synced, fun c hc => (h.limit c hc).trans ht⟩

/-- A file that has not been changed since it was found. -/
theorem within_of_past (hp : f.past = []) (hk : sec <+: f.bytes) (hs : sec.length ≤ f.synced) :
    f.Within sec f.bytes where
  kept := hk
  synced := hs
  limit c hc := by
    rw [contents, hp, List.mem_singleton] at hc
    exact hc ▸ List.prefix_refl _

/-- Once it is synced, all of the file is kept. -/
theorem within_sync : f.sync.Within f.bytes f.bytes :=
  within_of_past rfl (List.prefix_refl _) (Nat.le_refl _)

theorem Within.sync (h : f.Within sec t) : f.sync.Within sec f.bytes :=
  within_of_past rfl h.kept (Nat.le_trans h.synced f.synced_le)

theorem Within.revise {c : List UInt8} {hn : n ≤ f.synced} {heq : c.take n = f.bytes.take n}
    (h : f.Within sec t) (hsec : sec.length ≤ n) (hc : c <+: t) :
    (f.revise c n hn heq).Within sec t where
  kept := by
    have hpre : sec <+: f.bytes.take n := List.prefix_take_iff.mpr ⟨h.kept, hsec⟩
    rw [← heq] at hpre
    exact hpre.trans <| List.take_prefix _ _
  synced := hsec
  limit d hd := by
    rcases List.mem_cons.mp hd with rfl | hd
    · exact hc
    · exact h.limit d hd

theorem Within.put (h : f.Within sec t) (hd : f.bytes ++ d <+: t) :
    (f.put f.bytes.length d).Within sec t := by
  unfold File.put
  split
  · exact h
  · refine h.revise (Nat.le_min.mpr ⟨h.synced, h.kept.length_le⟩) ?_
    rwa [overwrite_end]

theorem Within.cut (h : f.Within sec t) (hsec : sec.length ≤ n) (hn : n ≤ f.bytes.length) :
    (f.cut n).Within sec t := by
  refine h.revise (Nat.le_min.mpr ⟨h.synced, hsec⟩) ?_
  rw [resize_of_le hn]
  have hcut : f.bytes.take n <+: f.bytes := List.take_prefix _ _
  exact hcut.trans h.bytes

@[simp] theorem put_nil : f.put pos [] = f := if_pos rfl

@[simp] theorem put_end_bytes : (f.put f.bytes.length d).bytes = f.bytes ++ d := by
  unfold put
  split
  · rename_i hd
    rw [hd, List.append_nil]
  · exact overwrite_end

theorem cut_bytes (hn : n ≤ f.bytes.length) : (f.cut n).bytes = f.bytes.take n := resize_of_le hn

/-- **A crash leaves something in between.** -/
theorem Within.survive (h : f.Within sec t) :
    (f.survive k n).Within sec (f.survive k n).bytes ∧ (f.survive k n).bytes <+: t := by
  have hmem : f.contents.getD k f.bytes ∈ f.contents := f.getD_mem_contents k
  have hsec : sec <+: f.contents.getD k f.bytes :=
    List.IsPrefix.trans (List.prefix_take_iff.mpr ⟨h.kept, h.synced⟩) (f.solid_contents hmem)
  have hkept : sec <+: (f.survive k n).bytes :=
    List.prefix_take_iff.mpr ⟨hsec, Nat.le_trans h.synced (Nat.le_max_right _ _)⟩
  have hcut : (f.survive k n).bytes <+: f.contents.getD k f.bytes := List.take_prefix _ _
  exact ⟨within_of_past rfl hkept h.synced, hcut.trans (h.limit _ hmem)⟩

end File

/-! ### Streams -/

/-- How a write goes. -/
structure Accept where
  /-- How many bytes are taken, if not all are. -/
  short : Option Nat := none
  /-- How many of the bytes held back go on to the file. -/
  spill : Nat := 0

/-- An open stream. -/
structure Stream where
  file : File
  position : Nat := 0
  /-- The bytes held back. -/
  buffer : List UInt8 := []
  deriving DecidableEq

namespace Stream

variable (h : Stream)

/-- The first `n` bytes held back go to the file. -/
def push (n : Nat) : Stream where
  file := h.file.put h.position (h.buffer.take n)
  position := h.position + (h.buffer.take n).length
  buffer := h.buffer.drop n

/-- `fwrite`: whether everything was taken. -/
def fwrite (a : Accept) (data : List UInt8) : Bool × Stream :=
  let taken := data.take (a.short.getD data.length)
  (taken.length = data.length, { h with buffer := h.buffer ++ taken }.push a.spill)

/-- `fflush`; when it fails, what was not handed on is lost. -/
def fflush (failed : Option Nat) : Bool × Stream :=
  match failed with
  | none => (true, h.push h.buffer.length)
  | some n => (false, { h.push n with buffer := [] })

/-- `fseek` to the end, and `ftell`. -/
def seekEnd (ok : Bool) : Option Nat × Stream :=
  if ok then
    let h := h.push h.buffer.length
    (some h.file.bytes.length, { h with position := h.file.bytes.length })
  else (none, h)

/-- `fseek` to an offset. -/
def seekSet (ok : Bool) (n : Nat) : Bool × Stream :=
  if ok then (true, { h.push h.buffer.length with position := n }) else (false, h)

/-- `fread` of at most `n` bytes. -/
def fread (short : Option Nat) (n : Nat) : List UInt8 × Stream :=
  let got := (h.file.bytes.drop h.position).take (min n (short.getD n))
  (got, { h with position := h.position + got.length })

/-- `ftruncate` of the file behind the stream. -/
def ftruncate (ok : Bool) (n : Nat) : Bool × Stream :=
  if ok then (true, { h with file := h.file.cut n }) else (false, h)

/-- `fsync` of the file behind the stream. -/
def fsync (ok : Bool) : Bool × Stream :=
  if ok then (true, { h with file := h.file.sync }) else (false, h)

/-! ### A stream that holds nothing back -/

section Empty

variable {h : Stream} (hb : h.buffer = [])

include hb

theorem push_of_empty (n : Nat) : h.push n = h := by
  obtain ⟨f, p, b⟩ := h
  obtain rfl : b = [] := hb
  simp [push]

theorem fflush_of_empty (a : Option Nat) : (h.fflush a).2 = h := by
  cases a with
  | none => exact push_of_empty hb _
  | some n =>
    rw [fflush, push_of_empty hb, ← hb]

theorem seekEnd_of_empty : h.seekEnd true =
    (some h.file.bytes.length, { h with position := h.file.bytes.length }) := by
  simp only [seekEnd, if_true, push_of_empty hb]

theorem seekSet_of_empty (n : Nat) : h.seekSet true n = (true, { h with position := n }) := by
  simp only [seekSet, if_true, push_of_empty hb]

end Empty

/-! ### Appending -/

variable {h : Stream} {c x sec t : List UInt8}

/-- The file had `c`, and `x` has been accepted since. -/
structure Appending (c x : List UInt8) (h : Stream) : Prop where
  bytes : h.file.bytes ++ h.buffer = c ++ x
  position : h.position = h.file.bytes.length
  base : c.length ≤ h.file.bytes.length

/-- Nothing is held back. -/
structure Ready (c : List UInt8) (h : Stream) : Prop where
  bytes : h.file.bytes = c
  buffer : h.buffer = []

/-- A stream that has gone beyond `c`, and not beyond `t`, on its way to the file. -/
def Grown (c t : List UInt8) (h : Stream) : Prop :=
  ∃ x, c ++ x <+: t ∧ (Appending c x h ∨ Ready (c ++ x) h)

namespace Appending

theorem file_le (ha : Appending c x h) : h.file.bytes <+: c ++ x := ⟨_, ha.bytes⟩

theorem base_le (ha : Appending c x h) : c <+: h.file.bytes :=
  List.prefix_of_prefix_length_le (List.prefix_append c x) ha.file_le ha.base

theorem push (ha : Appending c x h) (n : Nat) : Appending c x (h.push n) where
  bytes := by
    simp only [Stream.push, ha.position, File.put_end_bytes, List.append_assoc,
      List.take_append_drop, ha.bytes]
  position := by simp only [Stream.push, ha.position, File.put_end_bytes, List.length_append]
  base := by
    simp only [Stream.push, ha.position, File.put_end_bytes, List.length_append]
    exact Nat.le_add_right_of_le ha.base

theorem accept (ha : Appending c x h) (y : List UInt8) :
    Appending c (x ++ y) { h with buffer := h.buffer ++ y } where
  bytes := by rw [← List.append_assoc, ha.bytes, List.append_assoc]
  position := ha.position
  base := ha.base

/-- What `fwrite` takes is appended. -/
theorem fwrite (ha : Appending c x h) (a : Accept) (data : List UInt8) :
    ∃ y, y <+: data ∧ ((h.fwrite a data).1 = true → y = data) ∧
      Appending c (x ++ y) (h.fwrite a data).2 := by
  have hpart : data.take (a.short.getD data.length) <+: data := List.take_prefix _ _
  refine ⟨_, hpart, fun hok => ?_, (ha.accept _).push a.spill⟩
  have hlen : (data.take (a.short.getD data.length)).length = data.length := by
    simpa [Stream.fwrite] using hok
  exact hpart.eq_of_length hlen

/-- After a flush the file has some of what was accepted, and all of it on success. -/
theorem fflush (ha : Appending c x h) (a : Option Nat) :
    ∃ y, y <+: x ∧ ((h.fflush a).1 = true → y = x) ∧ Ready (c ++ y) (h.fflush a).2 := by
  cases a with
  | none =>
    refine ⟨x, List.prefix_refl _, fun _ => rfl, ?_, List.drop_length⟩
    have hb := (ha.push h.buffer.length).bytes
    rwa [show (h.push h.buffer.length).buffer = [] from List.drop_length, List.append_nil] at hb
  | some n =>
    have hp := ha.push n
    obtain ⟨y, hy⟩ := hp.base_le
    refine ⟨y, ?_, fun hok => absurd hok Bool.false_ne_true, hy.symm, rfl⟩
    have hle := hp.file_le
    rwa [← hy, List.prefix_append_right_inj] at hle

/-- A stream at the end of its file. -/
theorem of_ready (hr : Ready c h) (hp : h.position = c.length) : Appending c [] h where
  bytes := by rw [hr.bytes, hr.buffer]
  position := by rw [hr.bytes, hp]
  base := Nat.le_of_eq (by rw [hr.bytes])

/-- What is handed on stays within what has been accepted. -/
theorem within_push (ha : Appending c x h) (hw : h.file.Within sec t) (ht : c ++ x <+: t)
    (n : Nat) :
    (h.push n).file.Within sec t := by
  have hle : h.file.bytes ++ h.buffer.take n <+: t := by
    refine List.IsPrefix.trans ?_ ht
    rw [← ha.bytes, List.prefix_append_right_inj]
    exact List.take_prefix _ _
  rw [Stream.push, ha.position]
  exact hw.put hle

theorem within_fwrite {data : List UInt8} (ha : Appending c x h) (hw : h.file.Within sec t)
    (ht : c ++ (x ++ data) <+: t) (a : Accept) : (h.fwrite a data).2.file.Within sec t := by
  refine (ha.accept _).within_push hw (List.IsPrefix.trans ?_ ht) a.spill
  rw [List.prefix_append_right_inj, List.prefix_append_right_inj]
  exact List.take_prefix _ _

theorem within_fflush (ha : Appending c x h) (hw : h.file.Within sec t) (ht : c ++ x <+: t)
    (a : Option Nat) : (h.fflush a).2.file.Within sec t := by
  cases a with
  | none => exact ha.within_push hw ht _
  | some n => exact ha.within_push hw ht n

end Appending

end Stream

/-! ### Computations that a kill may cut short -/

/-- A computation of a process. When the process is killed on the way, the file is what is
left of it. -/
abbrev Process (α : Type*) := Except File α

/-- An operation on a stream, unless the process is killed before it. -/
def Stream.unless {α : Type*} (h : Stream) (killed : Bool) (x : α) : Process α :=
  if killed then .error h.file else .ok x

universe u

variable {α β : Type u} {K : File → Prop} {x : Process α} {Q : α → Prop}

/-- What a kill leaves meets `K`, and what is returned meets `Q`. -/
def Ends (K : File → Prop) (x : Process α) (Q : α → Prop) : Prop :=
  match x with
  | .error f => K f
  | .ok a => Q a

theorem ends_pure {a : α} (h : Q a) : Ends K (pure a) Q := h

theorem Ends.ok {a : α} (hx : Ends K x Q) (h : x = .ok a) : Q a := by
  subst h
  exact hx

theorem Ends.error {f : File} (hx : Ends K x Q) (h : x = .error f) : K f := by
  subst h
  exact hx

theorem ends_unless {h : Stream} {killed : Bool} {a : α} (hk : K h.file) (ha : Q a) :
    Ends K (h.unless killed a) Q := by
  cases killed
  · exact ha
  · exact hk

/-- **Sequencing.** -/
theorem Ends.bind {g : α → Process β} {R : β → Prop} (hx : Ends K x Q)
    (hg : ∀ a, Q a → Ends K (g a) R) : Ends K (x >>= g) R := by
  cases x with
  | error f => exact hx
  | ok a => exact hg a hx

theorem Ends.mono {R : α → Prop} (hx : Ends K x Q) (h : ∀ a, Q a → R a) : Ends K x R := by
  cases x with
  | error f => exact hx
  | ok a => exact h a hx

theorem Ends.weaken {K' : File → Prop} (hx : Ends K x Q) (h : ∀ f, K f → K' f) : Ends K' x Q := by
  cases x with
  | error f => exact h f hx
  | ok a => exact hx

end Stdio
