import Dualnet.Cipher.Stream

/-!
# Reading a stream that was cut off

A connection may break at any byte. What a reader gets then is a prefix of what was written, and
the frames it reads are the first of the frames written: a frame that is not there in full is an
error (`frame_truncated`), so `readAll_prefix` follows frame by frame.
-/

namespace Dualnet.Cipher

open Wire

variable {packets : List Bytes}

/-- Read frames until one cannot be read, at most `n` of them. -/
def Reader.readAll (bufLen : Nat) : Nat → Reader → List Bytes
  | 0, _ => []
  | n + 1, r =>
    match r.readFrame bufLen with
    | .ok (p, r') => p :: readAll bufLen n r'
    | .error _ => []

/-- A read of more bytes than there are fails, whatever the chunks. -/
theorem readLoop_short {fuel : Nat} {src : Source} {need : Nat} {acc : Bytes}
    (hshort : src.bytes.length < need) : ∃ err, readLoop fuel src need acc = .error err := by
  induction fuel generalizing src need acc with
  | zero => exact ⟨_, rfl⟩
  | succ fuel ih =>
    rw [readLoop, if_neg (by omega)]
    obtain ⟨chunks, eager⟩ := src
    cases chunks with
    | nil => simp [Source.read, show 0 < need by omega]
    | cons chunk rest =>
      have hbytes : Source.bytes ⟨chunk :: rest, eager⟩ = chunk ++ rest.flatten := rfl
      rw [hbytes, List.length_append] at hshort
      have hchunk : chunk.length ≤ need := by omega
      simp only [Source.read, hchunk, if_true, List.take_of_length_le hchunk]
      split
      · exact ⟨_, rfl⟩
      · refine ih ?_
        simp only [Source.bytes]
        omega

/-- `io.ReadFull` of more bytes than there are fails. -/
theorem readFull_short {src : Source} {n : Nat} (hshort : src.bytes.length < n) :
    ∃ err, readFull src n = .error err :=
  readLoop_short hshort

/-- No frame can be read where not even a length is left. -/
theorem readFrame_short {r : Reader} {bufLen : Nat} (hbuf : 2 ≤ bufLen)
    (hshort : r.src.bytes.length < 2) : ∃ err, r.readFrame bufLen = .error err := by
  have hbuf2 : ¬ bufLen < 2 := Nat.not_lt.mpr hbuf
  cases r with
  | plain src =>
    obtain ⟨err, herr⟩ := @readFull_short src 2 hshort
    exact ⟨err, by
      simp [Reader.readFrame, Wire.readFrame, hbuf2, herr, bind, Except.bind, Except.map]⟩
  | chacha4 o =>
    obtain ⟨err, herr⟩ := @readFull_short o.src 2 hshort
    refine ⟨err, ?_⟩
    simp [Reader.readFrame, Chacha4Reader.readFrame, hbuf2, herr, bind, Except.bind, Except.map]

/-- Of two ways to split one string, either the first part of the second is there in full or it
is cut off. -/
theorem append_cut {a b c d : Bytes} (h : a ++ b = c ++ d) :
    (∃ x, a = c ++ x ∧ d = x ++ b) ∨ ∃ x, x ≠ [] ∧ c = a ++ x := by
  rcases List.append_eq_append_iff.mp h with ⟨x, hc, hb⟩ | ⟨x, ha, hd⟩
  · by_cases hx : x = []
    · subst hx
      exact .inl ⟨[], by simpa using hc.symm, by simpa using hb.symm⟩
    · exact .inr ⟨x, hx, hc⟩
  · exact .inl ⟨x, ha, hd⟩

/-- Where a header is there but not all that follows it: the header can be read, what follows
cannot. -/
theorem readFull_cut {src : Source} {hdr tail more : Bytes} (hcut : hdr ++ tail = src.bytes ++ more)
    (hthere : hdr.length ≤ src.bytes.length) (hmore : more ≠ []) :
    ∃ src' err, readFull src hdr.length = .ok (hdr, src') ∧
      readFull src' tail.length = .error err := by
  obtain ⟨rest, hrest, htail⟩ : ∃ rest, src.bytes = hdr ++ rest ∧ tail = rest ++ more := by
    rcases append_cut hcut.symm with hfull | ⟨x, hx, hhdr⟩
    · exact hfull
    · have hpos : 0 < x.length := List.length_pos_of_ne_nil hx
      rw [hhdr, List.length_append] at hthere
      omega
  obtain ⟨src', hread, hleft⟩ := readFull_ok hrest
  have hpos : 0 < more.length := List.length_pos_of_ne_nil hmore
  obtain ⟨err, herr⟩ := @readFull_short src' tail.length (by
    rw [hleft, htail, List.length_append]
    omega)
  exact ⟨src', err, hread, herr⟩

/-- A packet that was written fits a frame. -/
theorem writeFrame_fits {w w' : Writer} {p : Bytes} (hwrite : w.writeFrame p = .ok w') :
    p.length ≤ maxPacket := by
  by_contra hlarge
  simp [Writer.writeFrame, Nat.not_le.mp hlarge] at hwrite

/-- So do packets that were all written. -/
theorem writeFrames_fit {w w' : Writer} (hwrite : w.writeFrames packets = .ok w') :
    ∀ p ∈ packets, p.length ≤ maxPacket := by
  induction packets generalizing w with
  | nil => simp
  | cons p packets ih =>
    rw [Writer.writeFrames, List.foldlM_cons] at hwrite
    cases hfirst : w.writeFrame p with
    | error err =>
      rw [hfirst] at hwrite
      cases hwrite
    | ok w₁ =>
      rw [hfirst] at hwrite
      exact List.forall_mem_cons.mpr ⟨writeFrame_fits hfirst, ih hwrite⟩

/-- Writing some packets and then others. -/
theorem writeFrames_append {w w' : Writer} (hwrite : w.writeFrames packets = .ok w')
    (packets' : List Bytes) : w.writeFrames (packets ++ packets') = w'.writeFrames packets' := by
  unfold Writer.writeFrames at hwrite ⊢
  rw [List.foldlM_append, hwrite]
  rfl

/-- Writing only appends. -/
theorem writeFrames_out {w w' : Writer} (hwrite : w.writeFrames packets = .ok w') :
    w.out <+: w'.out := by
  obtain ⟨w₁, sent, hwrite₁, hout, -⟩ := @frames_round_trip packets w (writeFrames_fit hwrite)
  obtain rfl := Except.ok.inj (hwrite.symm.trans hwrite₁)
  exact ⟨sent, hout.symm⟩

/-- A nonce that is not there in full is an error. -/
theorem wrapReader_cut {sc : StreamCipher} {nonce : Vector UInt8 12} {src : Source}
    {more : Bytes} (hcut : (sc.wrapWriter nonce).out = src.bytes ++ more) (hmore : more ≠ []) :
    ∃ err, sc.wrapReader src = .error err := by
  cases sc with
  | none => exact absurd (List.append_eq_nil_iff.mp hcut.symm).2 hmore
  | chacha4 key head =>
    have hlength : nonce.toList.length = chachaNonceLen := nonce.length_toList
    have hpos : 0 < more.length := List.length_pos_of_ne_nil hmore
    have hnonce : nonce.toList = src.bytes ++ more := hcut
    obtain ⟨err, herr⟩ := @readFull_short src chachaNonceLen (by
      rw [← hlength, hnonce, List.length_append]
      omega)
    exact ⟨err, by simp [StreamCipher.wrapReader, herr, bind, Except.bind]⟩

/-- A frame is the enciphered length and as many bytes as the packet has. -/
theorem Chacha4Writer.frame_split (o : Chacha4Writer) (p : Bytes) :
    ∃ tail : Bytes, tail.length = p.length ∧
      (o.frame p).1 = (o.c.xorKeyStream (putUint16 (UInt16.ofNat p.length))).1 ++ tail := by
  have hm := streamObfsLen_le o.head p.length
  unfold Chacha4Writer.frame
  dsimp only
  rw [List.append_assoc]
  refine ⟨_, ?_, rfl⟩
  rw [List.length_append, length_xorKeyStream, List.length_take, List.length_drop]
  omega

/-- A frame that is not there in full is an error. -/
theorem frame_truncated {w w' : Writer} {r : Reader} {p frame more : Bytes} {bufLen : Nat}
    (hwrite : w.writeFrame p = .ok w') (hout : w'.out = w.out ++ frame) (hmirrors : Mirrors w r)
    (hbuf : maxPacket ≤ bufLen) (hcut : frame = r.src.bytes ++ more) (hmore : more ≠ []) :
    ∃ err, r.readFrame bufLen = .error err := by
  by_cases hshort : r.src.bytes.length < 2
  · exact readFrame_short (le_trans (by decide) hbuf) hshort
  have hbuf2 : ¬ bufLen < 2 := Nat.not_lt.mpr (le_trans (by decide) hbuf)
  have hp : ¬ maxPacket < p.length := Nat.not_lt.mpr (writeFrame_fits hwrite)
  have hfits : ¬ bufLen < p.length := Nat.not_lt.mpr (le_trans (Nat.not_lt.mp hp) hbuf)
  simp only [Writer.writeFrame, if_neg hp] at hwrite
  -- The length is there and decodes to that of the packet; the rest of it is too short.
  cases hmirrors with
  | plain out src =>
    obtain rfl := Except.ok.inj hwrite
    have hframe : putUint16 (UInt16.ofNat p.length) ++ p = src.bytes ++ more := by
      rw [Writer.out, Writer.out, Wire.writeFrame, List.append_assoc] at hout
      rw [List.append_cancel_left hout, hcut]
      rfl
    obtain ⟨src', err, hread, herr⟩ := readFull_cut hframe (Nat.not_lt.mp hshort) hmore
    have hread2 : readFull src 2 = .ok (putUint16 (UInt16.ofNat p.length), src') := hread
    refine ⟨err, ?_⟩
    simp only [Reader.readFrame, Wire.readFrame, if_neg hbuf2, hread2,
      uint16_length (Nat.not_lt.mp hp), if_neg hfits, herr, bind, Except.bind, Except.map]
  | @chacha4 o o' hhead hstep =>
    obtain rfl := Except.ok.inj hwrite
    obtain ⟨tail, htail, hframe⟩ := o.frame_split p
    obtain ⟨hdr, hhdr⟩ : ∃ hdr, (o.c.xorKeyStream (putUint16 (UInt16.ofNat p.length))).1 = hdr :=
      ⟨_, rfl⟩
    have hbytes : hdr ++ tail = o'.src.bytes ++ more := by
      have hout' : o.out ++ (o.frame p).1 = o.out ++ frame := hout
      rw [← hhdr, ← hframe, List.append_cancel_left hout', hcut]
      rfl
    have hhdr2 : hdr.length = 2 := by
      rw [← hhdr, length_xorKeyStream]
      rfl
    obtain ⟨src', err, hread, herr⟩ := readFull_cut hbytes (by
      rw [hhdr2]
      exact Nat.not_lt.mp hshort) hmore
    rw [hhdr2] at hread
    rw [htail] at herr
    have hclear : (o'.c.xorKeyStream hdr).1 = putUint16 (UInt16.ofNat p.length) := by
      rw [← hhdr]
      exact hstep.xorKeyStream_undo _
    refine ⟨err, ?_⟩
    simp only [Reader.readFrame, Chacha4Reader.readFrame, if_neg hbuf2, hread, hclear,
      uint16_length (Nat.not_lt.mp hp), if_neg hfits, herr, bind, Except.bind, Except.map]

/-- What can be read of a stream that was cut off are the first of the packets written. -/
theorem readAll_prefix {w w' : Writer} {r : Reader} {sent more : Bytes} {bufLen : Nat}
    (hwrite : w.writeFrames packets = .ok w') (hout : w'.out = w.out ++ sent)
    (hmirrors : Mirrors w r) (hbuf : maxPacket ≤ bufLen) (hcut : sent = r.src.bytes ++ more)
    (n : Nat) : r.readAll bufLen n <+: packets := by
  induction packets generalizing w r sent n with
  | nil =>
    obtain rfl := Except.ok.inj hwrite
    have hempty : r.src.bytes = [] := by
      have hnil : sent = [] := List.append_right_eq_self.mp hout.symm
      rw [hnil] at hcut
      exact (List.append_eq_nil_iff.mp hcut.symm).1
    obtain ⟨err, herr⟩ := @readFrame_short r bufLen (le_trans (by decide) hbuf) (by simp [hempty])
    cases n with
    | zero => exact List.nil_prefix
    | succ n => simp [Reader.readAll, herr]
  | cons p packets ih =>
    have hfit := writeFrames_fit hwrite
    rw [List.forall_mem_cons] at hfit
    obtain ⟨w₁, frame, hfirst, hframe, hread⟩ := @frame_round_trip w p hfit.1
    obtain ⟨w₂, sent', hrest, hsent', -⟩ := @frames_round_trip packets w₁ hfit.2
    rw [Writer.writeFrames, List.foldlM_cons, hfirst] at hwrite
    obtain rfl : w₂ = w' := Except.ok.inj (hrest.symm.trans hwrite)
    have hsplit : r.src.bytes ++ more = frame ++ sent' := by
      rw [← hcut]
      rw [hsent', hframe, List.append_assoc] at hout
      exact (List.append_cancel_left hout).symm
    cases n with
    | zero => exact List.nil_prefix
    | succ n =>
      rw [Reader.readAll]
      -- Either the whole frame is there or it was cut off.
      rcases append_cut hsplit with ⟨rest, hbytes, hleft⟩ | ⟨cut, hnil, hcut'⟩
      · obtain ⟨r', hr', hr'bytes, hmirrors'⟩ := hread r rest bufLen hmirrors hbuf hbytes
        simp only [hr']
        refine (List.prefix_cons_inj p).mpr (ih hrest hsent' hmirrors' ?_ n)
        rw [hleft, hr'bytes]
      · obtain ⟨err, herr⟩ := frame_truncated hfirst hframe hmirrors hbuf hcut' hnil
        simp [herr]

/-- Frames that can all be read are read, and then there is no other. -/
theorem readAll_eq {bufLen k n : Nat} {r r' : Reader}
    (h : Reader.readFrames bufLen k r = .ok (packets, r')) (hempty : r'.src.bytes = [])
    (hbuf : 2 ≤ bufLen) (hn : k ≤ n) : r.readAll bufLen n = packets := by
  induction k generalizing r packets n with
  | zero =>
    obtain ⟨rfl, rfl⟩ := Prod.mk.inj (Except.ok.inj h)
    obtain ⟨err, herr⟩ := @readFrame_short r bufLen hbuf (by simp [hempty])
    cases n <;> simp [Reader.readAll, herr]
  | succ k ih =>
    obtain ⟨n, rfl⟩ : ∃ m, n = m + 1 := ⟨n - 1, by omega⟩
    rw [Reader.readFrames, Library.bind_eq_ok] at h
    obtain ⟨⟨p, r₁⟩, hfirst, h⟩ := h
    rw [Library.bind_eq_ok] at h
    obtain ⟨⟨ps, r₂⟩, hrest, heq⟩ := h
    obtain ⟨rfl, rfl⟩ := Prod.mk.inj (Library.pure_eq_ok.mp heq)
    rw [Reader.readAll, hfirst]
    simp only
    rw [ih hrest (by omega)]

/-- The other end of a connection on which packets were written, however many bytes arrive: it
cannot even wrap the stream, or what it reads are the first of the packets. -/
theorem received_prefix {sc : StreamCipher} {nonce : Vector UInt8 12} {w : Writer} {src : Source}
    (hwrite : (sc.wrapWriter nonce).writeFrames packets = .ok w) (hsrc : src.bytes <+: w.out)
    (n : Nat) :
    (∃ err, sc.wrapReader src = .error err) ∨
      ∃ r, sc.wrapReader src = .ok r ∧ r.readAll maxPacket n <+: packets := by
  obtain ⟨more, hmore⟩ := hsrc
  obtain ⟨sent, hsent⟩ := writeFrames_out hwrite
  rcases append_cut (hmore.trans hsent.symm) with ⟨rest, hbytes, hrest⟩ | ⟨cut, hcut, hnonce⟩
  · obtain ⟨r, hr, hleft, hmirrors⟩ := wrapReader_mirrors sc nonce hbytes
    have hleft' : sent = r.src.bytes ++ more := by rw [hrest, hleft]
    exact .inr ⟨r, hr, readAll_prefix hwrite hsent.symm hmirrors (Nat.le_refl _) hleft' n⟩
  · exact .inl (wrapReader_cut hnonce hcut)

end Dualnet.Cipher
