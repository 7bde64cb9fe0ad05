import Hill90.Foundation.Utf8
import Mathlib.Algebra.Group.Nat.Defs

/-! # The frames of an attached container

`execInContainer`, `execInContainerWithExit` and `execWithStdin` of `docker.ts` take a multiplexed
stream apart, each with a loop of its own over the chunks that arrive.
-/

namespace Hill90.Docker

open Utf8 (Bytes)

section Source

def payloadSize (buf : Bytes) : ℕ :=
  ((buf.drop 4).take 4).foldl (fun n b => n * 256 + b.toNat) 0

variable {σ : Type} (emit : UInt8 → Bytes → σ → σ)

def scan (buf : Bytes) (acc : σ) : σ × Option Bytes :=
  if buf.length < 8 then (acc, if buf = [] then none else some buf)
  else if buf.length < 8 + payloadSize buf then (acc, some buf)
  else
    scan (buf.drop (8 + payloadSize buf))
      (emit (buf.headD 0) ((buf.take (8 + payloadSize buf)).drop 8) acc)
termination_by buf.length
decreasing_by
  rw [List.length_drop]
  omega

def onData (state : σ × Option Bytes) (chunk : Bytes) : σ × Option Bytes :=
  scan emit (match state.2 with
    | some remainder => remainder ++ chunk
    | none => chunk) state.1

def demux (acc : σ) (chunks : List Bytes) : σ := (chunks.foldl (onData emit) (acc, none)).1

/-- The buffers that are pushed to the stream that `execInContainer` returns. -/
def execInContainer (chunks : List Bytes) : List Bytes :=
  demux (fun streamType payload pushed => if streamType = 1 then pushed ++ [payload] else pushed) []
    chunks

structure Output where
  stdoutChunks : List Bytes := []
  stderrChunks : List Bytes := []
  deriving DecidableEq, Repr

def Output.push (streamType : UInt8) (payload : Bytes) (out : Output) : Output :=
  if streamType = 1 then { out with stdoutChunks := out.stdoutChunks ++ [payload] }
  else if streamType = 2 then { out with stderrChunks := out.stderrChunks ++ [payload] }
  else out

structure Texts where
  stdout : List Char
  stderr : List Char
  deriving DecidableEq, Repr

def Output.texts (out : Output) : Texts :=
  ⟨Utf8.decode out.stdoutChunks.flatten, Utf8.decode out.stderrChunks.flatten⟩

def execInContainerWithExit (chunks : List Bytes) : Texts := (demux Output.push {} chunks).texts

def execWithStdin (chunks : List Bytes) : Texts := (demux Output.push {} chunks).texts

end Source

section Frames

inductive StreamType where
  | stdout
  | stderr
  deriving DecidableEq, Repr

def StreamType.byte : StreamType → UInt8
  | stdout => 1
  | stderr => 2

def bigEndian : ℕ → ℕ → Bytes
  | 0, _ => []
  | k + 1, n => bigEndian k (n / 256) ++ [UInt8.ofNat n]

/-- A frame; what stands between the type and the length is up to the daemon. -/
structure Frame where
  streamType : StreamType
  padding : Fin 3 → UInt8 := fun _ => 0
  payload : Bytes
  fits : payload.length < 2 ^ 32

def Frame.header (f : Frame) : Bytes :=
  [f.streamType.byte, f.padding 0, f.padding 1, f.padding 2] ++ bigEndian 4 f.payload.length

def Frame.encode (f : Frame) : Bytes := f.header ++ f.payload

def payloads (streamType : StreamType) (frames : List Frame) : Bytes :=
  (frames.filter fun f => f.streamType = streamType).flatMap Frame.payload

end Frames

section Scan

variable {σ : Type} {emit : UInt8 → Bytes → σ → σ} {acc : σ}

theorem scan_nil : scan emit [] acc = (acc, none) := by
  rw [scan]
  rfl

theorem payloadSize_append {buf : Bytes} (h : 8 ≤ buf.length) (more : Bytes) :
    payloadSize (buf ++ more) = payloadSize buf := by
  unfold payloadSize
  rw [List.drop_append_of_le_length (by omega), List.take_append_of_le_length]
  rw [List.length_drop]
  omega

theorem scan_step {buf : Bytes} (h : 8 ≤ buf.length) (hsize : 8 + payloadSize buf ≤ buf.length) :
    scan emit buf acc = scan emit (buf.drop (8 + payloadSize buf))
      (emit (buf.headD 0) ((buf.take (8 + payloadSize buf)).drop 8) acc) := by
  rw [scan, if_neg (by omega), if_neg (by omega)]

theorem scan_short {buf : Bytes} (h : buf.length < 8) :
    scan emit buf acc = (acc, if buf = [] then none else some buf) := by
  rw [scan, if_pos h]

theorem scan_unfinished {buf : Bytes} (h : 8 ≤ buf.length) (hsize : buf.length < 8 + payloadSize buf) :
    scan emit buf acc = (acc, some buf) := by
  rw [scan, if_neg (by omega), if_pos hsize]

/-- The remainder with what comes after it is as good as the whole. -/
theorem scan_append (buf more : Bytes) (acc : σ) :
    scan emit ((scan emit buf acc).2.getD [] ++ more) (scan emit buf acc).1 =
      scan emit (buf ++ more) acc := by
  induction buf, acc using scan.induct emit with
  | case1 buf acc hshort =>
    rw [scan_short hshort]
    by_cases hnil : buf = []
    · simp [hnil]
    · simp [hnil]
  | case2 buf acc hlong hpartial =>
    rw [scan_unfinished (by omega) hpartial]
    rfl
  | case3 buf acc hlong hwhole ih =>
    have h8 : 8 ≤ buf.length := by omega
    have hsize : 8 + payloadSize buf ≤ buf.length := by omega
    have hpayload := payloadSize_append h8 more
    have happend : scan emit (buf ++ more) acc = _ :=
      scan_step (by rw [List.length_append]; omega) (by rw [hpayload, List.length_append]; omega)
    have hhead : (buf ++ more).headD 0 = buf.headD 0 := by
      cases buf with
      | nil => simp at h8
      | cons b buf => rfl
    rw [scan_step h8 hsize, ih, happend, hpayload, hhead, List.drop_append_of_le_length hsize,
      List.take_append_of_le_length hsize]

theorem onData_eq (state : σ × Option Bytes) (chunk : Bytes) :
    onData emit state chunk = scan emit (state.2.getD [] ++ chunk) state.1 := by
  unfold onData
  cases state.2 <;> rfl

/-- However the bytes are split, the loops emit what one loop over all of them does. -/
theorem foldl_onData (chunks : List Bytes) (buf : Bytes) (acc : σ) :
    chunks.foldl (onData emit) (scan emit buf acc) = scan emit (buf ++ chunks.flatten) acc := by
  induction chunks generalizing buf with
  | nil => simp
  | cons chunk chunks ih =>
    rw [List.foldl_cons, onData_eq, scan_append, ih, List.flatten_cons, List.append_assoc]

theorem demux_eq (acc : σ) (chunks : List Bytes) :
    demux emit acc chunks = (scan emit chunks.flatten acc).1 := by
  have h : chunks.foldl (onData emit) (scan emit [] acc) = scan emit ([] ++ chunks.flatten) acc :=
    foldl_onData chunks [] acc
  rw [scan_nil, List.nil_append] at h
  rw [demux, h]

end Scan

section Framed

variable {σ : Type} {emit : UInt8 → Bytes → σ → σ} {acc : σ}

theorem length_bigEndian (k n : ℕ) : (bigEndian k n).length = k := by
  induction k generalizing n with
  | zero => rfl
  | succ k ih => rw [bigEndian, List.length_append, ih, List.length_singleton]

theorem foldl_bigEndian (k n : ℕ) :
    (bigEndian k n).foldl (fun n b => n * 256 + b.toNat) 0 = n % 256 ^ k := by
  induction k generalizing n with
  | zero => simp [bigEndian, Nat.mod_one]
  | succ k ih =>
    have hbyte : (UInt8.ofNat n).toNat = n % 256 := UInt8.toNat_ofNat'
    rw [bigEndian, List.foldl_append, ih, List.foldl_cons, List.foldl_nil, hbyte, Nat.pow_succ',
      Nat.mod_mul]
    omega

theorem length_header (f : Frame) : f.header.length = 8 := by
  rw [Frame.header, List.length_append, length_bigEndian]
  rfl

theorem payloadSize_encode (f : Frame) (more : Bytes) :
    payloadSize (f.encode ++ more) = f.payload.length := by
  have htake : ((f.encode ++ more).drop 4).take 4 = bigEndian 4 f.payload.length := by
    have hlength := length_bigEndian 4 f.payload.length
    unfold Frame.encode Frame.header
    simp only [List.append_assoc, List.cons_append, List.nil_append, List.drop_succ_cons,
      List.drop_zero]
    rw [List.take_append_of_le_length (by omega), List.take_of_length_le (by omega)]
  have hfits := f.fits
  unfold payloadSize
  rw [htake, foldl_bigEndian]
  omega

theorem scan_encode (f : Frame) (more : Bytes) :
    scan emit (f.encode ++ more) acc = scan emit more (emit f.streamType.byte f.payload acc) := by
  have hheader := length_header f
  have hencode : f.encode.length = 8 + f.payload.length := by
    rw [Frame.encode, List.length_append, hheader]
  have hsize := payloadSize_encode f more
  have htake : (f.encode ++ more).take (8 + f.payload.length) = f.encode := by
    rw [← hencode, List.take_left]
  have hdrop : (f.encode ++ more).drop (8 + f.payload.length) = more := by
    rw [← hencode, List.drop_left]
  have hpayload : f.encode.drop 8 = f.payload := by
    rw [Frame.encode, ← hheader, List.drop_left]
  have hhead : (f.encode ++ more).headD 0 = f.streamType.byte := rfl
  rw [scan_step (by rw [List.length_append]; omega) (by rw [hsize, List.length_append]; omega), hsize,
    htake, hdrop, hpayload, hhead]

theorem scan_frames (frames : List Frame) :
    scan emit (frames.flatMap Frame.encode) acc =
      (frames.foldl (fun acc f => emit f.streamType.byte f.payload acc) acc, none) := by
  induction frames generalizing acc with
  | nil => exact scan_nil
  | cons f frames ih => rw [List.flatMap_cons, scan_encode, ih, List.foldl_cons]

variable {frames : List Frame} {chunks : List Bytes}

theorem demux_frames (h : chunks.flatten = frames.flatMap Frame.encode) :
    demux emit acc chunks = frames.foldl (fun acc f => emit f.streamType.byte f.payload acc) acc := by
  rw [demux_eq, h, scan_frames]

theorem pushed_eq (frames : List Frame) (pushed : List Bytes) :
    (frames.foldl (fun pushed f =>
      if f.streamType.byte = 1 then pushed ++ [f.payload] else pushed) pushed).flatten =
      pushed.flatten ++ payloads .stdout frames := by
  induction frames generalizing pushed with
  | nil => simp [payloads]
  | cons f frames ih =>
    rw [List.foldl_cons, ih]
    cases hstream : f.streamType <;> simp [payloads, hstream, StreamType.byte]

theorem output_eq (frames : List Frame) (out : Output) :
    (frames.foldl (fun out f => out.push f.streamType.byte f.payload) out).stdoutChunks.flatten =
        out.stdoutChunks.flatten ++ payloads .stdout frames ∧
      (frames.foldl (fun out f => out.push f.streamType.byte f.payload) out).stderrChunks.flatten =
        out.stderrChunks.flatten ++ payloads .stderr frames := by
  induction frames generalizing out with
  | nil => simp [payloads]
  | cons f frames ih =>
    obtain ⟨hstdout, hstderr⟩ := ih (out.push f.streamType.byte f.payload)
    rw [List.foldl_cons, hstdout, hstderr]
    cases hstream : f.streamType <;> simp [payloads, hstream, StreamType.byte, Output.push]

/-- Each of the three loops takes out the payloads of the frames, wherever the chunks are cut. -/
theorem demultiplexed (frames : List Frame) (chunks : List Bytes)
    (h : chunks.flatten = frames.flatMap Frame.encode) :
    (execInContainer chunks).flatten = payloads .stdout frames ∧
      execInContainerWithExit chunks =
        ⟨Utf8.decode (payloads .stdout frames), Utf8.decode (payloads .stderr frames)⟩ ∧
      execWithStdin chunks = execInContainerWithExit chunks := by
  obtain ⟨hstdout, hstderr⟩ := output_eq frames {}
  refine ⟨?_, ?_, rfl⟩
  · rw [execInContainer, demux_frames h]
    exact pushed_eq frames []
  · rw [execInContainerWithExit, demux_frames h, Output.texts, hstdout, hstderr]
    rfl

/-- A header is cut in the middle, and a payload behind its first byte. -/
theorem demultiplexed_cut :
    (execInContainer [[1, 0, 0, 0, 0], [0, 0, 2, 104], [105, 2, 0, 0, 0, 0, 0, 0, 0]]).flatten =
        [104, 105] ∧
      execInContainerWithExit [[1, 0, 0, 0, 0], [0, 0, 2, 104], [105, 2, 0, 0, 0, 0, 0, 0, 0]] =
        ⟨['h', 'i'], []⟩ ∧
      execWithStdin [[1, 0, 0, 0, 0], [0, 0, 2, 104], [105, 2, 0, 0, 0, 0, 0, 0, 0]] =
        execInContainerWithExit
          [[1, 0, 0, 0, 0], [0, 0, 2, 104], [105, 2, 0, 0, 0, 0, 0, 0, 0]] :=
  demultiplexed [⟨.stdout, fun _ => 0, [104, 105], by decide⟩, ⟨.stderr, fun _ => 0, [], by decide⟩] _
    (by decide)

end Framed

end Hill90.Docker
