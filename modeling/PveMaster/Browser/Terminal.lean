import PveMaster.Foundation.Encodings
import PveMaster.Foundation.Parsing
import PveMaster.Foundation.Process

/-! The terminal of a container, from the keyboard to Proxmox and back.

What is typed, the size of the window and a ping are frames, sent as texts; Proxmox reads bytes. The length in a
frame counts the bytes of what was typed, so the frames are read back whatever was typed (`readFrames_frames`).
In every run Proxmox reads a beginning of what the browser has sent, and the screen shows what Proxmox has
written after its `OK` (`terminal_transparent`). -/
namespace PveMaster.Terminal
open Encoding

/-! ### Texts as bytes -/

/-- A surrogate that is not part of a pair is sent as U+FFFD. -/
def scalarOf (c : CodePoint) : Char := (scalar? c).getD (Char.ofNat 0xFFFD)

/-- The bytes of a string: of `TextEncoder`, and of a text message. -/
def textBytes (text : List CodeUnit) : List UInt8 :=
  ((codePoints text).map scalarOf).flatMap String.utf8EncodeChar

/-- A literal of the browser. -/
def units (l : List Char) : List CodeUnit := l.map fun c => Fin.ofNat _ c.toNat

def asciiBytes (l : List Char) : List UInt8 := l.map fun c => UInt8.ofNat c.toNat

theorem textBytes_units {l : List Char} (h : ∀ c ∈ l, c.toNat < 128) (text : List CodeUnit) :
    textBytes (units l ++ text) = asciiBytes l ++ textBytes text := by
  have hunit (c : Char) (hc : c.toNat < 128) : (Fin.ofNat 0x10000 c.toNat).val = c.toNat :=
    Nat.mod_eq_of_lt (by omega)
  have hhigh : ∀ u ∈ units l, isHigh u = false := by
    intro u hu
    obtain ⟨c, hc, rfl⟩ := List.mem_map.mp hu
    have := h c hc
    simp only [isHigh, hunit c this, Bool.and_eq_false_iff, decide_eq_false_iff_not]
    omega
  have hchar (c : Char) (hc : c.toNat < 128) : scalarOf (single (Fin.ofNat _ c.toNat)) = c := by
    have hpoint : single (Fin.ofNat _ c.toNat) = ofChar c := Fin.ext (hunit c hc)
    have hsome := scalar?_isSome (ofChar c)
    rw [isSurrogate_ofChar] at hsome
    obtain ⟨c', hc'⟩ := Option.isSome_iff_exists.mp hsome
    have hval : (ofChar c').val = (ofChar c).val := congrArg Fin.val (scalar?_some hc')
    unfold scalarOf
    rw [hpoint, hc', Option.getD_some, Char.toNat_inj.mp hval]
  have hbytes : (((units l).map single).map scalarOf).flatMap String.utf8EncodeChar = asciiBytes l := by
    clear hhigh
    induction l with
    | nil => rfl
    | cons c rest ih =>
      have hc := h c List.mem_cons_self
      have hsize : c.utf8Size = 1 :=
        Char.utf8Size_eq_one_iff.mpr (UInt32.le_iff_toNat_le.mpr (Nat.le_of_lt_succ hc))
      have hutf8 : String.utf8EncodeChar c = [UInt8.ofNat c.toNat] := String.utf8EncodeChar_eq_singleton hsize
      show String.utf8EncodeChar (scalarOf (single (Fin.ofNat _ c.toNat))) ++ _ = UInt8.ofNat c.toNat :: asciiBytes rest
      rw [hchar c hc, hutf8, ← ih fun d hd => h d (List.mem_cons_of_mem c hd)]
      rfl
  unfold textBytes
  rw [codePoints_append hhigh, List.map_append, List.flatMap_append, hbytes]

/-! ### Frames -/

/-- What the browser sends. -/
inductive Frame where
  | input (data : List CodeUnit)
  | resize (cols rows : Nat)
  | ping
  deriving DecidableEq

def terminalInputFrame (data : List CodeUnit) : List CodeUnit :=
  units ('0' :: ':' :: (Text.numeral 10 (textBytes data).length ++ [':'])) ++ data

def terminalResizeFrame (cols rows : Nat) : List CodeUnit :=
  units ('1' :: ':' :: (Text.numeral 10 cols ++ ':' :: (Text.numeral 10 rows ++ [':'])))

def terminalPingFrame : List CodeUnit := units ['2']

def Frame.text : Frame → List CodeUnit
  | .input data => terminalInputFrame data
  | .resize cols rows => terminalResizeFrame cols rows
  | .ping => terminalPingFrame

def Frame.bytes (f : Frame) : List UInt8 := textBytes f.text

/-- What Proxmox reads. -/
inductive Command where
  | input (bytes : List UInt8)
  | resize (cols rows : Nat)
  | ping
  deriving DecidableEq

/-- What a frame stands for. -/
def Frame.command : Frame → Command
  | .input data => .input (textBytes data)
  | .resize cols rows => .resize cols rows
  | .ping => .ping

/-! ### Reading -/

/-- A number up to a colon, and what follows. -/
def readNumber (bytes : List UInt8) : Option (Nat × List UInt8) :=
  match bytes.dropWhile (· != 58) with
  | _ :: rest => (Text.parseNumeral ((bytes.takeWhile (· != 58)).map fun b => Char.ofNat b.toNat)).map (·, rest)
  | [] => none

/-- A frame, and what follows. -/
def readFrame : List UInt8 → Option (Command × List UInt8)
  | 48 :: 58 :: rest => do
    let (length, rest) ← readNumber rest
    if length ≤ rest.length then return (.input (rest.take length), rest.drop length) else none
  | 49 :: 58 :: rest => do
    let (cols, rest) ← readNumber rest
    let (rows, rest) ← readNumber rest
    return (.resize cols rows, rest)
  | 50 :: rest => some (.ping, rest)
  | _ => none

/-- Frames up to the end, no more than the fuel. -/
def readFrames : Nat → List UInt8 → Option (List Command)
  | _, [] => some []
  | 0, _ => none
  | fuel + 1, bytes => do
    let (command, rest) ← readFrame bytes
    let more ← readFrames fuel rest
    return command :: more

theorem readNumber_numeral (n : Nat) (rest : List UInt8) :
    readNumber (asciiBytes (Text.numeral 10 n ++ [':']) ++ rest) = some (n, rest) := by
  have hdigit {c : Char} (hc : c ∈ Text.numeral 10 n) :
      (UInt8.ofNat c.toNat != 58) = true ∧ Char.ofNat (UInt8.ofNat c.toNat).toNat = c := by
    obtain ⟨d, hd, rfl⟩ := Text.isDigit_numeral (by decide) hc
    clear hc
    revert d
    decide
  have hkept : ∀ b ∈ asciiBytes (Text.numeral 10 n), (b != 58) = true := by
    intro b hb
    obtain ⟨c, hc, rfl⟩ := List.mem_map.mp hb
    exact (hdigit hc).1
  have hback : (asciiBytes (Text.numeral 10 n)).map (fun b => Char.ofNat b.toNat) = Text.numeral 10 n := by
    unfold asciiBytes
    rw [List.map_map]
    exact (List.map_congr_left fun c hc => (hdigit hc).2).trans (List.map_id _)
  have hbytes : asciiBytes (Text.numeral 10 n ++ [':']) ++ rest = asciiBytes (Text.numeral 10 n) ++ 58 :: rest := by
    unfold asciiBytes
    rw [List.map_append, List.append_assoc]
    rfl
  unfold readNumber
  rw [hbytes, List.dropWhile_append_of_pos hkept, List.takeWhile_append_of_pos hkept]
  simp [hback, Text.parseNumeral_numeral]

theorem ascii_numeral (n : Nat) : ∀ c ∈ Text.numeral 10 n, c.toNat < 128 := by
  intro c hc
  obtain ⟨d, hd, rfl⟩ := Text.isDigit_numeral (by decide) hc
  clear hc
  revert d
  decide

/-- **A frame is read back**, whatever follows it. -/
theorem readFrame_bytes (f : Frame) (rest : List UInt8) : readFrame (f.bytes ++ rest) = some (f.command, rest) := by
  cases f with
  | input data =>
    have hascii : ∀ c ∈ '0' :: ':' :: (Text.numeral 10 (textBytes data).length ++ [':']), c.toNat < 128 := by
      simp only [List.mem_cons, List.mem_append, List.not_mem_nil, or_false]
      rintro c (rfl | rfl | hc | rfl)
      · decide
      · decide
      · exact ascii_numeral _ c hc
      · decide
    have hbytes : (Frame.input data).bytes ++ rest =
        48 :: 58 :: (asciiBytes (Text.numeral 10 (textBytes data).length ++ [':']) ++ (textBytes data ++ rest)) := by
      unfold Frame.bytes Frame.text terminalInputFrame
      rw [textBytes_units hascii, List.append_assoc]
      rfl
    rw [hbytes, readFrame, readNumber_numeral]
    simp [Frame.command]
  | resize cols rows =>
    have hascii : ∀ c ∈ '1' :: ':' :: (Text.numeral 10 cols ++ ':' :: (Text.numeral 10 rows ++ [':'])), c.toNat < 128 := by
      simp only [List.mem_cons, List.mem_append, List.not_mem_nil, or_false]
      rintro c (rfl | rfl | hc | rfl | hc | rfl)
      · decide
      · decide
      · exact ascii_numeral _ c hc
      · decide
      · exact ascii_numeral _ c hc
      · decide
    have hbytes : (Frame.resize cols rows).bytes ++ rest =
        49 :: 58 :: (asciiBytes (Text.numeral 10 cols ++ [':']) ++ (asciiBytes (Text.numeral 10 rows ++ [':']) ++ rest)) := by
      have htext := textBytes_units hascii []
      rw [List.append_nil] at htext
      unfold Frame.bytes Frame.text terminalResizeFrame
      rw [htext]
      simp [asciiBytes, textBytes, codePoints]
    rw [hbytes, readFrame, readNumber_numeral]
    simp [readNumber_numeral, Frame.command]
  | ping => rfl

theorem bytes_ne_nil (f : Frame) : f.bytes ≠ [] := by
  intro h
  have hread := readFrame_bytes f []
  rw [h] at hread
  cases hread

/-- **Frames are read back**, one after the other. -/
theorem readFrames_frames {frames : List Frame} {fuel : Nat} (hfuel : frames.length ≤ fuel) :
    readFrames fuel (frames.flatMap Frame.bytes) = some (frames.map Frame.command) := by
  induction frames generalizing fuel with
  | nil => cases fuel <;> rfl
  | cons f rest ih =>
    obtain ⟨fuel, rfl⟩ : ∃ n, fuel = n + 1 := ⟨fuel - 1, by simp at hfuel; omega⟩
    have hmore := ih (Nat.le_of_succ_le_succ hfuel)
    have hread := readFrame_bytes f (rest.flatMap Frame.bytes)
    rw [List.flatMap_cons]
    cases hbytes : f.bytes ++ rest.flatMap Frame.bytes with
    | nil => exact absurd (List.append_eq_nil_iff.mp hbytes).1 (bytes_ne_nil f)
    | cons b bytes =>
      rw [hbytes] at hread
      simp [readFrames, hread, hmore]

theorem length_frames (frames : List Frame) : frames.length ≤ (frames.flatMap Frame.bytes).length := by
  induction frames with
  | nil => exact Nat.le_refl _
  | cons f rest ih =>
    have hpos := List.length_pos_of_ne_nil (bytes_ne_nil f)
    rw [List.flatMap_cons, List.length_append, List.length_cons]
    omega

/-! ### A session -/

inductive Phase where
  | connecting | connected | closed
  deriving DecidableEq

structure Session where
  phase : Phase
  /-- `terminalReady`. -/
  ready : Bool
  /-- Messages of the browser that the gateway has not relayed. -/
  upward : List (List CodeUnit)
  /-- Whether the gateway has its upstream connection. -/
  dialed : Bool
  /-- What Proxmox was sent. -/
  received : List UInt8
  /-- Messages of Proxmox that the browser has not got. -/
  downward : List (List UInt8)
  /-- What was written to the terminal. -/
  screen : List UInt8
  sent : List Frame
  /-- What Proxmox has written. -/
  output : List UInt8

def Session.start : Session := ⟨.connecting, false, [], false, [], [], [], [], []⟩

inductive Event where
  | opened
  | typed (data : List CodeUnit)
  | fitted (cols rows : Nat)
  | tick
  | dialed
  | relayedUp
  | wrote (message : List UInt8)
  | relayedDown
  /-- Either side closes the connection, or the page is left. -/
  | closed

/-- `consumeTerminalHandshake`. -/
def consumeTerminalHandshake : List UInt8 → Option (List UInt8)
  | 79 :: 75 :: rest => some rest
  | _ => none

def Session.send (s : Session) (f : Frame) : Session := { s with upward := s.upward ++ [f.text], sent := s.sent ++ [f] }

def stringBytes (text : String) : List UInt8 := text.toList.flatMap String.utf8EncodeChar

/-- The listener of `message`. -/
def Session.message (s : Session) (output : List UInt8) : Session :=
  if s.ready then { s with screen := s.screen ++ output }
  else match consumeTerminalHandshake output with
    | some initialOutput => { s with ready := true, screen := s.screen ++ initialOutput }
    | none => { s with phase := .closed }

/-- What an event does, where `auth` is the frame that the gateway begins with. -/
def Session.next (auth : String) (s : Session) : Event → Session
  | .opened => if s.phase = .connecting then { s with phase := .connected } else s
  | .typed data => if s.phase = .connected ∧ s.ready then s.send (.input data) else s
  | .fitted cols rows => if s.phase = .connected ∧ s.ready then s.send (.resize cols rows) else s
  | .tick => if s.phase = .connected then s.send .ping else s
  | .dialed => if s.dialed then s else { s with dialed := true, received := stringBytes auth }
  | .relayedUp =>
    match s.dialed, s.upward with
    | true, text :: rest => { s with upward := rest, received := s.received ++ textBytes text }
    | _, _ => s
  | .wrote message =>
    if s.dialed then { s with downward := s.downward ++ [message], output := s.output ++ message } else s
  | .relayedDown =>
    match s.phase, s.downward with
    | .connected, message :: rest => { s with downward := rest }.message message
    | _, _ => s
  | .closed => { s with phase := .closed }

/-! ### Runs -/

structure Transparent (auth : String) (s : Session) : Prop where
  /-- What Proxmox was sent, and what the gateway has yet to relay, is what the browser has sent. -/
  up : ∃ passed waiting, s.sent = passed ++ waiting ∧ s.upward = waiting.map Frame.text ∧
    s.received = (if s.dialed then stringBytes auth ++ passed.flatMap Frame.bytes else []) ∧ (s.dialed = false → passed = [])
  shown : s.ready = true → s.output = [79, 75] ++ s.screen ++ s.downward.flatten
  unshown : s.ready = false → s.screen = [] ∧ (s.phase ≠ .closed → s.output = s.downward.flatten)
  /-- Nothing but pings is sent before the terminal is ready. -/
  pings : s.ready = false → ∀ f ∈ s.sent, f = .ping

section Events
variable {auth : String} {s : Session}

theorem Transparent.send (h : Transparent auth s) {f : Frame} (hf : s.ready = false → f = .ping) :
    Transparent auth (s.send f) where
  up := by
    obtain ⟨passed, waiting, hsent, hupward, hreceived⟩ := h.up
    refine ⟨passed, waiting ++ [f], ?_, ?_, hreceived⟩
    · show s.sent ++ [f] = _
      rw [hsent, List.append_assoc]
    · show s.upward ++ [f.text] = _
      rw [hupward, List.map_append, List.map_singleton]
  shown := h.shown
  unshown := h.unshown
  pings hready g hg := by
    rcases List.mem_append.mp hg with hg | hg
    · exact h.pings hready g hg
    · rw [List.mem_singleton.mp hg]
      exact hf hready

theorem consumeTerminalHandshake_some {output initialOutput : List UInt8}
    (h : consumeTerminalHandshake output = some initialOutput) : output = [79, 75] ++ initialOutput := by
  unfold consumeTerminalHandshake at h
  split at h
  · cases h
    rfl
  · cases h

theorem Transparent.message (h : Transparent auth s) {message : List UInt8} {rest : List (List UInt8)}
    (hphase : s.phase = .connected) (hdown : s.downward = message :: rest) :
    Transparent auth ({ s with downward := rest }.message message) := by
  unfold Session.message
  dsimp only
  cases hready : s.ready with
  | true =>
    have hshown := h.shown hready
    rw [hdown] at hshown
    rw [if_pos rfl]
    refine ⟨h.up, fun _ => ?_, fun hnot => ?_, fun hnot => ?_⟩
    · simpa [List.append_assoc] using hshown
    · cases hnot
    · cases hnot
  | false =>
    obtain ⟨hscreen, houtput⟩ := h.unshown hready
    have houtput := houtput (by rw [hphase]; decide)
    rw [hdown, List.flatten_cons] at houtput
    simp only [Bool.false_eq_true, if_false]
    cases hconsumed : consumeTerminalHandshake message with
    | none =>
      refine ⟨h.up, fun hnot => ?_, fun _ => ⟨hscreen, fun hnot => absurd rfl hnot⟩, fun _ => h.pings hready⟩
      cases hnot
    | some initialOutput =>
      refine ⟨h.up, fun _ => ?_, fun hnot => ?_, fun hnot => ?_⟩
      · show s.output = [79, 75] ++ (s.screen ++ initialOutput) ++ rest.flatten
        rw [houtput, hscreen, consumeTerminalHandshake_some hconsumed, List.nil_append]
      · cases hnot
      · cases hnot

/-- **Every event** keeps the two directions apart and whole. -/
theorem transparent_next (h : Transparent auth s) (e : Event) : Transparent auth (s.next auth e) := by
  cases e with
  | opened =>
    unfold Session.next
    dsimp only
    split
    · next hphase =>
      exact ⟨h.up, h.shown, fun hready => ⟨(h.unshown hready).1, fun _ => (h.unshown hready).2 (by rw [hphase]; decide)⟩,
        h.pings⟩
    · exact h
  | typed data =>
    unfold Session.next
    dsimp only
    split
    · next hready => exact h.send fun hnot => by cases hready.2.symm.trans hnot
    · exact h
  | fitted cols rows =>
    unfold Session.next
    dsimp only
    split
    · next hready => exact h.send fun hnot => by cases hready.2.symm.trans hnot
    · exact h
  | tick =>
    unfold Session.next
    dsimp only
    split
    · exact h.send fun _ => rfl
    · exact h
  | dialed =>
    unfold Session.next
    dsimp only
    cases hdialed : s.dialed with
    | true => exact h
    | false =>
      obtain ⟨passed, waiting, hsent, hupward, -, hnone⟩ := h.up
      cases hnone hdialed
      exact ⟨⟨[], waiting, hsent, hupward, (List.append_nil _).symm, fun _ => rfl⟩, h.shown, h.unshown, h.pings⟩
  | relayedUp =>
    unfold Session.next
    dsimp only
    split
    · next text rest hdialed hupward =>
      refine ⟨?_, h.shown, h.unshown, h.pings⟩
      obtain ⟨passed, waiting, hsent, hwaiting, hreceived, -⟩ := h.up
      rw [hupward] at hwaiting
      rw [if_pos hdialed] at hreceived
      cases waiting with
      | nil => cases hwaiting
      | cons f waiting =>
        obtain ⟨htext, hrest⟩ := List.cons.inj hwaiting
        refine ⟨passed ++ [f], waiting, ?_, hrest, ?_, fun hnot => ?_⟩
        · rw [hsent, List.append_assoc]
          rfl
        · show s.received ++ textBytes text = if s.dialed then _ else _
          rw [if_pos hdialed, hreceived, htext, List.flatMap_append, List.flatMap_singleton, List.append_assoc]
          rfl
        · cases hdialed.symm.trans hnot
    · exact h
  | wrote message =>
    unfold Session.next
    dsimp only
    split
    · refine ⟨h.up, fun hready => ?_, fun hready => ⟨(h.unshown hready).1, fun hphase => ?_⟩, h.pings⟩
      · show s.output ++ message = [79, 75] ++ s.screen ++ (s.downward ++ [message]).flatten
        rw [h.shown hready, List.flatten_append, List.flatten_singleton, List.append_assoc]
      · show s.output ++ message = (s.downward ++ [message]).flatten
        rw [(h.unshown hready).2 hphase, List.flatten_append, List.flatten_singleton]
    · exact h
  | relayedDown =>
    unfold Session.next
    dsimp only
    split
    · next message rest hphase hdown => exact h.message hphase hdown
    · exact h
  | closed =>
    exact ⟨h.up, h.shown, fun hready => ⟨(h.unshown hready).1, fun hnot => absurd rfl hnot⟩, h.pings⟩

theorem transparent_start : Transparent auth .start where
  up := ⟨[], [], rfl, rfl, rfl, fun _ => rfl⟩
  shown h := by cases h
  unshown _ := ⟨rfl, fun _ => rfl⟩
  pings _ _ h := absurd h List.not_mem_nil

theorem transparent_run (h : Transparent auth s) (events : List Event) :
    Transparent auth (runFrom (Session.next auth) s events) := by
  induction events generalizing s with
  | nil => exact h
  | cons e rest ih => exact ih (transparent_next h e)

end Events

/-- **A terminal is transparent**: in every run of what the user types, the sizes of the window, the pings, the
messages of Proxmox, the relay of the gateway in either direction and the end of the connection, what Proxmox was
sent after the frame of the gateway is read as a beginning of what the browser has sent, in order, which is nothing
but pings before the terminal is ready; and from then on the screen and the messages on their way to it are what
Proxmox has written after its `OK`. -/
theorem terminal_transparent (auth : String) (events : List Event) :
    let s := runFrom (Session.next auth) .start events
    (∃ passed waiting rest, s.sent = passed ++ waiting ∧ s.upward = waiting.map Frame.text ∧
      s.received = (if s.dialed then stringBytes auth else []) ++ rest ∧
      readFrames rest.length rest = some (passed.map Frame.command)) ∧
    (s.ready = true → s.output = [79, 75] ++ s.screen ++ s.downward.flatten) ∧
    (s.ready = false → s.screen = [] ∧ ∀ f ∈ s.sent, f = .ping) := by
  intro s
  have h : Transparent auth s := transparent_run transparent_start events
  obtain ⟨passed, waiting, hsent, hupward, hreceived, hnone⟩ := h.up
  refine ⟨⟨passed, waiting, passed.flatMap Frame.bytes, hsent, hupward, ?_, readFrames_frames (length_frames passed)⟩,
    h.shown, fun hready => ⟨(h.unshown hready).1, h.pings hready⟩⟩
  cases hdialed : s.dialed with
  | true =>
    rw [hdialed] at hreceived
    exact hreceived
  | false =>
    rw [hdialed] at hreceived
    rw [hreceived, hnone hdialed]
    rfl

end PveMaster.Terminal
