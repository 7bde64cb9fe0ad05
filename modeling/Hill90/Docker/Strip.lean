import Hill90.Docker.Demux
import Hill90.Events.Value
import Mathlib.Data.List.DropRight

/-! # The log lines of a container

`stripDockerHeader` of `agents.ts` takes the frames of a log apart.  `GET /:id/logs` applies it to
the whole log, and while it follows one to each chunk by itself, wherever the chunk begins.
-/

namespace Hill90.Docker

open Utf8 (Bytes decode)
open Events (isSpace split exists_split sublist_of_mem_split newline_notMem_split)

abbrev Line := List Char

section Source

def trimEnd (text : Line) : Line := text.rdropWhile isSpace

def stripDockerHeader (buf : Bytes) : List Line :=
  if buf.length = 0 then []
  else if buf.length < 8 then [trimEnd (decode buf)]
  else if payloadSize buf = 0 ∨ buf.length < 8 + payloadSize buf then
    [trimEnd (decode (buf.drop 8))]
  else
    let line := trimEnd (decode ((buf.drop 8).take (payloadSize buf)))
    let rest := stripDockerHeader (buf.drop (8 + payloadSize buf))
    if line = [] then rest else line :: rest
termination_by buf.length
decreasing_by
  rw [List.length_drop]
  omega

/-- The lines that are sent while a log is followed, to a request without a filter. -/
def followLogs (chunks : List Bytes) : List Line := chunks.flatMap stripDockerHeader

end Source

section Lines

def linesOf (text : Line) : List Line :=
  ((split text).map trimEnd).filter fun line => !line.isEmpty

/-- All that the text shows is one line or none. -/
def Frame.OneLine (f : Frame) : Prop := f.payload ≠ [] ∧ '\n' ∉ trimEnd (decode f.payload)

instance (f : Frame) : Decidable f.OneLine := inferInstanceAs (Decidable (_ ∧ _))

def encoded (frames : List Frame) : Bytes := frames.flatMap Frame.encode

def Followed (frames : List Frame) (chunks : List Bytes) : Prop :=
  followLogs chunks = stripDockerHeader (encoded frames) ∧
    stripDockerHeader (encoded frames) = frames.flatMap fun f => linesOf (decode f.payload)

variable {text blank line : Line}

theorem trimEnd_sublist (text : Line) : (trimEnd text).Sublist text :=
  (List.rdropWhile_prefix isSpace text).sublist

theorem trimEnd_append (text : Line) (h : ∀ c ∈ blank, isSpace c = true) :
    trimEnd (text ++ blank) = trimEnd text := by
  induction blank using List.reverseRecOn with
  | nil => rw [List.append_nil]
  | append_singleton blank c ih =>
    have hc := h c (List.mem_append_right _ (List.mem_singleton_self c))
    have hrest := ih fun d hd => h d (List.mem_append_left _ hd)
    rw [← List.append_assoc, trimEnd, List.rdropWhile_concat_pos _ _ _ hc]
    exact hrest

theorem trimEnd_trimEnd (text : Line) : trimEnd (trimEnd text) = trimEnd text :=
  List.rdropWhile_idempotent isSpace text

/-- What `trimEnd` leaves and the blanks that it takes off. -/
theorem exists_blank (text : Line) :
    ∃ blank, text = trimEnd text ++ blank ∧ ∀ c ∈ blank, isSpace c = true :=
  ⟨text.rtakeWhile isSpace, List.rdropWhile_append_rtakeWhile.symm,
    fun _ hc => List.mem_rtakeWhile_imp hc⟩

theorem count_trimEnd {c : Char} (text : Line) (h : isSpace c = false) :
    (trimEnd text).count c = text.count c := by
  obtain ⟨blank, htext, hblank⟩ := exists_blank text
  have hzero : blank.count c = 0 := by
    refine List.count_eq_zero.mpr fun hmem => ?_
    rw [hblank c hmem] at h
    cases h
  conv_rhs => rw [htext, List.count_append, hzero, Nat.add_zero]

theorem exists_of_mem_linesOf (h : line ∈ linesOf text) :
    ∃ raw ∈ split text, trimEnd raw = line := by
  obtain ⟨raw, hraw, hline⟩ := List.mem_map.mp (List.mem_of_mem_filter h)
  exact ⟨raw, hraw, hline⟩

theorem sublist_of_mem_linesOf (h : line ∈ linesOf text) : line.Sublist text := by
  obtain ⟨raw, hraw, rfl⟩ := exists_of_mem_linesOf h
  exact (trimEnd_sublist raw).trans (sublist_of_mem_split hraw)

theorem newline_notMem_linesOf (h : line ∈ linesOf text) : '\n' ∉ line := by
  obtain ⟨raw, hraw, rfl⟩ := exists_of_mem_linesOf h
  exact fun hmem => newline_notMem_split hraw ((trimEnd_sublist raw).subset hmem)

theorem split_append (blank : Line) (h : '\n' ∉ text) :
    ∃ first others, split blank = first :: others ∧
      split (text ++ blank) = (text ++ first) :: others := by
  induction text with
  | nil =>
    obtain ⟨first, others, hsplit⟩ := exists_split blank
    exact ⟨first, others, hsplit, hsplit⟩
  | cons c text ih =>
    obtain ⟨hc, htext⟩ := not_or.mp (mt List.mem_cons.mpr h)
    obtain ⟨first, others, hblank, hsplit⟩ := ih htext
    refine ⟨first, others, hblank, ?_⟩
    rw [List.cons_append, split, if_neg (Ne.symm hc), hsplit]
    rfl

theorem trimEnd_blank (h : ∀ c ∈ blank, isSpace c = true) : trimEnd blank = [] :=
  trimEnd_append [] h

theorem linesOf_eq (h : '\n' ∉ trimEnd text) :
    linesOf text = if trimEnd text = [] then [] else [trimEnd text] := by
  obtain ⟨blank, htext, hblank⟩ := exists_blank text
  obtain ⟨first, others, hsplit, happend⟩ := split_append blank h
  have hpiece : ∀ piece ∈ split blank, trimEnd piece = [] := fun piece hp =>
    trimEnd_blank fun c hc => hblank c ((sublist_of_mem_split hp).subset hc)
  have hfirst : trimEnd (trimEnd text ++ first) = trimEnd text := by
    rw [trimEnd_append _ fun c hc => hblank c
      ((sublist_of_mem_split (hsplit ▸ List.mem_cons_self)).subset hc), trimEnd_trimEnd]
  have hothers : (others.map trimEnd).filter (fun line => !line.isEmpty) = [] := by
    refine List.filter_eq_nil_iff.mpr fun line hline => ?_
    obtain ⟨piece, hp, rfl⟩ := List.mem_map.mp hline
    simp [hpiece piece (hsplit ▸ List.mem_cons_of_mem _ hp)]
  rw [linesOf, htext, happend, List.map_cons, ← htext, hfirst, List.filter_cons, hothers]
  cases trimEnd text <;> rfl

end Lines

section Stripped

variable {frames : List Frame}

theorem strip_encode (f : Frame) (more : Bytes) (h : f.payload ≠ []) :
    stripDockerHeader (f.encode ++ more) =
      if trimEnd (decode f.payload) = [] then stripDockerHeader more
      else trimEnd (decode f.payload) :: stripDockerHeader more := by
  have hsize := payloadSize_encode f more
  have hheader := length_header f
  have hpos := List.length_pos_iff.mpr h
  have hlength : (f.encode ++ more).length = 8 + f.payload.length + more.length := by
    rw [List.length_append, Frame.encode, List.length_append, hheader]
  have hdrop : (f.encode ++ more).drop (8 + f.payload.length) = more := by
    rw [← hheader, ← List.length_append, ← Frame.encode, List.drop_left]
  have hpayload : ((f.encode ++ more).drop 8).take f.payload.length = f.payload := by
    rw [Frame.encode, List.append_assoc, ← hheader, List.drop_left, List.take_left]
  rw [stripDockerHeader, if_neg (by omega), if_neg (by omega), hsize,
    if_neg (by omega), hpayload, hdrop]

theorem strip_empty (f : Frame) (more : Bytes) (h : f.payload = []) :
    stripDockerHeader (f.encode ++ more) = [trimEnd (decode more)] := by
  have hsize := payloadSize_encode f more
  have hheader := length_header f
  have hencode : f.encode = f.header := by rw [Frame.encode, h, List.append_nil]
  have hlength : (f.encode ++ more).length = 8 + more.length := by
    rw [List.length_append, hencode, hheader]
  have hdrop : (f.encode ++ more).drop 8 = more := by rw [hencode, ← hheader, List.drop_left]
  rw [stripDockerHeader, if_neg (by omega), if_neg (by omega), hsize, h, if_pos (.inl rfl), hdrop]

theorem encoded_cons (f : Frame) (frames : List Frame) :
    encoded (f :: frames) = f.encode ++ encoded frames := List.flatMap_cons

theorem strip_nil : stripDockerHeader [] = [] := by
  rw [stripDockerHeader]
  rfl

/-- No frame gives two lines. -/
theorem length_strip_le (frames : List Frame) :
    (stripDockerHeader (encoded frames)).length ≤ frames.length := by
  induction frames with
  | nil =>
    rw [encoded, List.flatMap_nil, strip_nil]
    rfl
  | cons f frames ih =>
    rw [encoded_cons, List.length_cons]
    by_cases h : f.payload = []
    · rw [strip_empty f _ h, List.length_singleton]
      omega
    · rw [strip_encode f _ h]
      split
      · omega
      · rw [List.length_cons]
        omega

theorem length_follow_bytes (bytes : Bytes) :
    (followLogs (bytes.map fun b => [b])).length = bytes.length := by
  induction bytes with
  | nil => rfl
  | cons b bytes ih =>
    have hone : stripDockerHeader [b] = [trimEnd (decode [b])] := by
      rw [stripDockerHeader]
      rfl
    rw [followLogs, List.map_cons, List.flatMap_cons, hone, List.length_append, ← followLogs, ih,
      List.length_singleton, List.length_cons, Nat.add_comm]

theorem length_encoded (frames : List Frame) : 8 * frames.length ≤ (encoded frames).length := by
  induction frames with
  | nil => rfl
  | cons f frames ih =>
    rw [encoded_cons, List.length_append, Frame.encode, List.length_append, length_header,
      List.length_cons]
    omega

theorem exists_cut (h : frames ≠ []) : ∃ chunks : List Bytes,
    chunks.flatten = encoded frames ∧ followLogs chunks ≠ stripDockerHeader (encoded frames) := by
  refine ⟨(encoded frames).map fun b => [b], ?_, fun heq => ?_⟩
  · rw [← List.flatMap_def, List.flatMap_singleton']
  · have hpos := List.length_pos_iff.mpr h
    have hbytes := length_follow_bytes (encoded frames)
    have hlines := length_strip_le frames
    have hframes := length_encoded frames
    rw [heq] at hbytes
    omega

theorem count_payload_le (g : Frame) (b : UInt8) : g.payload.count b ≤ g.encode.count b :=
  (List.sublist_append_right g.header g.payload).count_le b

theorem count_payload_lt (f : Frame) {frames : List Frame} {g : Frame} (h : g ∈ f :: frames) :
    g.payload.count f.streamType.byte < (encoded (f :: frames)).count f.streamType.byte := by
  have hfirst : f.payload.count f.streamType.byte < f.encode.count f.streamType.byte := by
    have hencode : f.encode = f.streamType.byte :: (f.header.tail ++ f.payload) := rfl
    rw [hencode, List.count_cons_self, List.count_append]
    omega
  rw [encoded_cons, List.count_append]
  obtain rfl | hg := List.mem_cons.mp h
  · omega
  · have hpayload := count_payload_le g f.streamType.byte
    have hencode : g.encode.count f.streamType.byte ≤ (encoded frames).count f.streamType.byte :=
      (List.sublist_flatten_of_mem (List.mem_map_of_mem hg)).count_le _
    omega

/-- What is read behind an empty frame is no line of any payload. -/
theorem rest_notMem (frames : List Frame) :
    [trimEnd (decode (encoded frames))] ≠ frames.flatMap fun f => linesOf (decode f.payload) := by
  intro heq
  cases frames with
  | nil => cases heq
  | cons f frames =>
    have hmem : trimEnd (decode (encoded (f :: frames))) ∈
        (f :: frames).flatMap fun f => linesOf (decode f.payload) := heq ▸ List.mem_singleton_self _
    obtain ⟨g, hg, hline⟩ := List.mem_flatMap.mp hmem
    have hpos : 0 < f.streamType.byte := by cases f.streamType <;> decide
    have hlow : f.streamType.byte < 64 := by cases f.streamType <;> decide
    have hspace : isSpace (Char.ofNat f.streamType.byte.toNat) = false := by
      cases f.streamType <;> decide
    have hle := (sublist_of_mem_linesOf hline).count_le (Char.ofNat f.streamType.byte.toNat)
    rw [count_trimEnd _ hspace, Utf8.count_decode hpos hlow, Utf8.count_decode hpos hlow] at hle
    have hlt := count_payload_lt f hg
    omega

theorem strip_eq (more : List Frame) (h : ∀ f ∈ frames, f.OneLine) :
    stripDockerHeader (encoded (frames ++ more)) =
      (frames.flatMap fun f => linesOf (decode f.payload)) ++ stripDockerHeader (encoded more) := by
  induction frames with
  | nil => rfl
  | cons f frames ih =>
    obtain ⟨hpayload, hline⟩ := h f List.mem_cons_self
    have hrest := ih fun g hg => h g (List.mem_cons_of_mem _ hg)
    rw [List.cons_append, encoded_cons, strip_encode f _ hpayload, hrest, List.flatMap_cons,
      linesOf_eq hline]
    split <;> rfl

theorem strip_iff (frames : List Frame) :
    stripDockerHeader (encoded frames) = (frames.flatMap fun f => linesOf (decode f.payload)) ↔
      ∀ f ∈ frames, f.OneLine := by
  induction frames with
  | nil => exact iff_of_true strip_nil (by simp)
  | cons f frames ih =>
    rw [encoded_cons, List.flatMap_cons, List.forall_mem_cons]
    by_cases hpayload : f.payload = []
    · have hlines : linesOf (decode f.payload) = [] := by rw [hpayload]; rfl
      rw [strip_empty f _ hpayload, hlines, List.nil_append]
      exact iff_of_false (rest_notMem frames) fun h => h.1.1 hpayload
    · rw [strip_encode f _ hpayload]
      by_cases hline : '\n' ∈ trimEnd (decode f.payload)
      · have hne : trimEnd (decode f.payload) ≠ [] := List.ne_nil_of_mem hline
        refine iff_of_false (fun heq => ?_) fun h => h.1.2 hline
        rw [if_neg hne] at heq
        have hmem : trimEnd (decode f.payload) ∈
            (f :: frames).flatMap fun f => linesOf (decode f.payload) := by
          rw [List.flatMap_cons, ← heq]
          exact List.mem_cons_self
        obtain ⟨g, -, hg⟩ := List.mem_flatMap.mp hmem
        exact newline_notMem_linesOf hg hline
      · have hone : f.OneLine := ⟨hpayload, hline⟩
        rw [linesOf_eq hline]
        split
        · rw [List.nil_append, ih]
          exact (and_iff_right hone).symm
        · rw [List.singleton_append, List.cons_inj_right, ih]
          exact (and_iff_right hone).symm

/-- A log that is cut between frames. -/
theorem follow_groups {groups : List (List Frame)} (h : ∀ f ∈ groups.flatten, f.OneLine) :
    followLogs (groups.map encoded) = stripDockerHeader (encoded groups.flatten) := by
  induction groups with
  | nil => exact strip_nil.symm
  | cons frames groups ih =>
    rw [List.flatten_cons, List.forall_mem_append] at h
    have hframes := (strip_iff frames).mpr h.1
    rw [followLogs, List.map_cons, List.flatMap_cons, ← followLogs, ih h.2, List.flatten_cons,
      strip_eq _ h.1, hframes]

/-- No log with anything in it can be followed in every split; split between frames it can be
exactly if each frame shows one line or none, and is not empty. -/
theorem followed_iff (groups : List (List Frame)) :
    ((∀ chunks : List Bytes, chunks.flatten = encoded groups.flatten → Followed groups.flatten chunks) ↔
        groups.flatten = []) ∧
      (Followed groups.flatten (groups.map encoded) ↔ ∀ f ∈ groups.flatten, f.OneLine) := by
  refine ⟨⟨fun h => ?_, fun h chunks hchunks => ?_⟩, fun h => (strip_iff _).mp h.2,
    fun h => ⟨follow_groups h, (strip_iff _).mpr h⟩⟩
  · by_contra hne
    obtain ⟨chunks, hchunks, hcut⟩ := exists_cut hne
    exact hcut (h chunks hchunks).1
  · rw [h] at hchunks ⊢
    have hempty : ∀ chunk ∈ chunks, chunk = [] := List.flatten_eq_nil_iff.mp hchunks
    have hfollow : followLogs chunks = [] :=
      List.flatMap_eq_nil_iff.mpr fun chunk hc => by rw [hempty chunk hc, strip_nil]
    exact ⟨hfollow.trans strip_nil.symm, strip_nil⟩

/-- A frame of two letters. -/
def hi : Frame := ⟨.stdout, fun _ => 0, [104, 105], by decide⟩

/-- Cut behind its header it gives a line that the whole of it does not. -/
theorem followed_cut : ¬∀ chunks : List Bytes, chunks.flatten = encoded [hi] → Followed [hi] chunks := by
  intro h
  have hheader : stripDockerHeader hi.header = [[]] := by
    rw [stripDockerHeader, if_neg (by decide), if_neg (by decide), if_pos (by decide)]
    rfl
  have hpayload : stripDockerHeader hi.payload = [['h', 'i']] := by
    rw [stripDockerHeader, if_neg (by decide), if_pos (by decide)]
    rfl
  have hcut : stripDockerHeader hi.header ++ (stripDockerHeader hi.payload ++ []) =
      stripDockerHeader (encoded [hi]) := (h [hi.header, hi.payload] rfl).1
  have hle := length_strip_le [hi]
  rw [← hcut, hheader, hpayload] at hle
  exact absurd hle (by decide)

end Stripped

end Hill90.Docker
