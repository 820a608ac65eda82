import QuantumNode.Message.Control
import QuantumNode.Proofs.Memory.Snapshot

/-! Control messages as text. Host messages whose numbers fit their words are read back as they were, and what a host
reads from its node's answers is the application's id and memory as the node has them. -/
namespace QuantumNode

open Text

/-- The first line of a message is its kind and fields; all that follows its line feed is the body. -/
theorem splitFirstLine_line {l : List Char} (h : '\n' ∉ l) (body : List Char) :
    splitFirstLine (l ++ '\n' :: body) = (l, body) := by
  rw [splitFirstLine, cutAt_append h, Option.getD_some]

theorem splitFirstLine_spaced {kind : List Char} {ws : List (List Char)} (hk : IsWord kind) (hs : ∀ w ∈ ws, IsWord w)
    (body : List Char) : splitFirstLine (spaced kind ws ++ '\n' :: body) = (spaced kind ws, body) :=
  splitFirstLine_line (newline_not_mem_spaced hk hs) body

theorem appIdField?_field {id : Int} (h : Word.fitsSigned32 id = true) :
    appIdField? ([(toString id).toList].flatMap (' ' :: ·)) = some id := by
  rw [appIdField?, leadingInt32?_flatMap [] h]
  rfl

namespace HostMessage

/-- Messages whose numbers fit the words that hold them. -/
def Sized : HostMessage → Prop
  | initNewApp n => n < Word.size64
  | openSocket app socket remote =>
    Word.fitsSigned32 app = true ∧ Word.fitsSigned32 socket = true ∧ Word.fitsSigned32 remote = true
  | subroutine _ => True
  | stopApp app => Word.fitsSigned32 app = true

theorem decode_initNewApp {n : Nat} (h : n < Word.size64) : decode (initNewApp n).encode = .ok (initNewApp n) := by
  have htext : (initNewApp n).encode.toList = spaced "INIT_NEW_APP".toList [(toString n).toList] ++ '\n' :: [] := by
    change ("INIT_NEW_APP " ++ toString n ++ "\n").toList = _
    simp [spaced]
  have hkind : IsWord "INIT_NEW_APP".toList := isWord_of_all (by decide) (by decide)
  simp only [decode, htext, splitFirstLine_spaced hkind (List.forall_mem_singleton.2 (isWord_toString_nat n)),
    nextWord_spaced hkind, String.ofList_toList, if_true, initNewApp?, leadingNat64?_flatMap [] h]
  rfl

theorem decode_openSocket {app socket remote : Int} (h : (openSocket app socket remote).Sized) :
    decode (openSocket app socket remote).encode = .ok (openSocket app socket remote) := by
  obtain ⟨ha, hs, hr⟩ := h
  have htext : (openSocket app socket remote).encode.toList = spaced "OPEN_EPR_SOCKET".toList
      [(toString app).toList, (toString socket).toList, (toString remote).toList] ++ '\n' :: [] := by
    change ("OPEN_EPR_SOCKET " ++ toString app ++ " " ++ toString socket ++ " " ++ toString remote ++ "\n").toList = _
    simp [spaced]
  have hkind : IsWord "OPEN_EPR_SOCKET".toList := isWord_of_all (by decide) (by decide)
  have hwords : ∀ w ∈ [(toString app).toList, (toString socket).toList, (toString remote).toList], IsWord w :=
    List.forall_mem_cons.2 ⟨isWord_toString app,
      List.forall_mem_cons.2 ⟨isWord_toString socket, List.forall_mem_singleton.2 (isWord_toString remote)⟩⟩
  have hne : ¬ "OPEN_EPR_SOCKET" = "INIT_NEW_APP" := by decide
  simp only [decode, htext, splitFirstLine_spaced hkind hwords, nextWord_spaced hkind, String.ofList_toList, if_neg hne,
    if_true, openSocket?, Option.bind_eq_bind, Option.bind_some, leadingInt32?_flatMap _ ha,
    leadingInt32?_flatMap _ hs, leadingInt32?_flatMap [] hr]
  rfl

theorem decode_subroutine (text : String) : decode (subroutine text).encode = .ok (subroutine text) := by
  have htext : (subroutine text).encode.toList = spaced "SUBROUTINE".toList [] ++ '\n' :: text.toList := by
    change ("SUBROUTINE\n" ++ text).toList = _
    simp [spaced]
  have hkind : IsWord "SUBROUTINE".toList := isWord_of_all (by decide) (by decide)
  have hnone : ∀ w ∈ ([] : List (List Char)), IsWord w := fun _ h => absurd h List.not_mem_nil
  have hinit : ¬ "SUBROUTINE" = "INIT_NEW_APP" := by decide
  have hopen : ¬ "SUBROUTINE" = "OPEN_EPR_SOCKET" := by decide
  simp only [decode, htext, splitFirstLine_spaced hkind hnone, nextWord_spaced hkind, String.ofList_toList,
    if_neg hinit, if_neg hopen, if_true]

theorem decode_stopApp {app : Int} (h : Word.fitsSigned32 app = true) :
    decode (stopApp app).encode = .ok (stopApp app) := by
  have htext : (stopApp app).encode.toList = spaced "STOP_APP".toList [(toString app).toList] ++ '\n' :: [] := by
    change ("STOP_APP " ++ toString app ++ "\n").toList = _
    simp [spaced]
  have hkind : IsWord "STOP_APP".toList := isWord_of_all (by decide) (by decide)
  have hinit : ¬ "STOP_APP" = "INIT_NEW_APP" := by decide
  have hopen : ¬ "STOP_APP" = "OPEN_EPR_SOCKET" := by decide
  have hsubroutine : ¬ "STOP_APP" = "SUBROUTINE" := by decide
  simp only [decode, htext, splitFirstLine_spaced hkind (List.forall_mem_singleton.2 (isWord_toString app)),
    nextWord_spaced hkind, String.ofList_toList, if_neg hinit, if_neg hopen, if_neg hsubroutine, if_true,
    appIdField?_field h]
  rfl

theorem decode_encode {m : HostMessage} (h : m.Sized) : decode m.encode = .ok m := by
  cases m with
  | initNewApp n => exact decode_initNewApp h
  | openSocket app socket remote => exact decode_openSocket h
  | subroutine text => exact decode_subroutine text
  | stopApp app => exact decode_stopApp h

end HostMessage

namespace NodeMessage

theorem decode_appId {id : Int} (h : Word.fitsSigned32 id = true) : decode (appId id).encode = .ok (appId id) := by
  have htext : (appId id).encode.toList = spaced "APP_ID".toList [(toString id).toList] ++ '\n' :: [] := by
    change ("APP_ID " ++ toString id ++ "\n").toList = _
    simp [spaced]
  have hkind : IsWord "APP_ID".toList := isWord_of_all (by decide) (by decide)
  simp only [decode, htext, splitFirstLine_spaced hkind (List.forall_mem_singleton.2 (isWord_toString id)),
    nextWord_spaced hkind, String.ofList_toList, if_true, appIdField?_field h]

/-- A snapshot that a node sends is read with the id in the message's first line. -/
theorem decode_memory {s : MemorySnapshot} (h : Word.fitsSigned32 s.appId = true) : decode (memory s).encode =
    ((MemorySnapshot.parse s.appId s.text.toList).map memory |>.mapError .snapshot) := by
  have htext : (memory s).encode.toList =
      spaced "APP_MEMORY".toList [(toString s.appId).toList] ++ '\n' :: s.text.toList := by
    change ("APP_MEMORY " ++ toString s.appId ++ "\n" ++ s.text).toList = _
    simp [spaced]
  have hkind : IsWord "APP_MEMORY".toList := isWord_of_all (by decide) (by decide)
  have hne : ¬ "APP_MEMORY" = "APP_ID" := by decide
  simp only [decode, htext, splitFirstLine_spaced hkind (List.forall_mem_singleton.2 (isWord_toString s.appId)),
    nextWord_spaced hkind, String.ofList_toList, if_neg hne, if_true, appIdField?_field h]

/-- Of an abort the rest of the first line is read, from the first letter that is no blank. -/
theorem decode_of_abort {text : String} {first body : List Char} (hline : '\n' ∉ first)
    (htext : text.toList = "ABORT".toList ++ ' ' :: first ++ '\n' :: body) :
    decode text = .ok (abort (String.ofList (first.dropWhile isBlank))) := by
  have hkind : IsWord "ABORT".toList := isWord_of_all (by decide) (by decide)
  have hends : EndsWord (' ' :: first) := by
    rintro _ ⟨⟩
    rfl
  have hfirst : '\n' ∉ "ABORT".toList ++ ' ' :: first :=
    List.not_mem_append (by decide) (List.not_mem_cons_of_ne_of_not_mem (by decide) hline)
  have hdrop : (' ' :: first).dropWhile isBlank = first.dropWhile isBlank := List.dropWhile_cons_of_pos rfl
  have hid : ¬ "ABORT" = "APP_ID" := by decide
  have hmemory : ¬ "ABORT" = "APP_MEMORY" := by decide
  simp only [decode, htext, splitFirstLine_line hfirst, nextWord_word hkind hends, String.ofList_toList, if_neg hid,
    if_neg hmemory, if_true, hdrop]

theorem toList_encode_abort (reason : String) :
    (abort reason).encode.toList = "ABORT".toList ++ ' ' :: (reason.toList ++ ['\n']) := by
  change ("ABORT " ++ reason ++ "\n").toList = _
  simp

/-- A reason of one line that does not start with a blank. -/
theorem decode_abort {reason : String} (hline : '\n' ∉ reason.toList)
    (hstart : ∀ c ∈ reason.toList.head?, isBlank c = false) : decode (abort reason).encode = .ok (abort reason) := by
  have htext : (abort reason).encode.toList = "ABORT".toList ++ ' ' :: reason.toList ++ '\n' :: [] := by
    rw [toList_encode_abort, List.append_assoc, List.cons_append]
  have hdrop : reason.toList.dropWhile isBlank = reason.toList := dropWhile_run (d := []) nofun hstart
  rw [decode_of_abort hline htext, hdrop, String.ofList_toList]

end NodeMessage

/-- The host sees exactly what its node has. Every message of a host is read back as it was, so is the id of a new
application, and the text of a memory's snapshot is read as a snapshot that shows that memory: its id, a value or none
in each register, its arrays with all their entries, and the physical qubit of each virtual id. -/
theorem messages_survive_their_text :
    (∀ m : HostMessage, m.Sized → HostMessage.decode m.encode = .ok m) ∧
    (∀ id, Word.fitsSigned32 id = true → NodeMessage.decode (NodeMessage.appId id).encode = .ok (.appId id)) ∧
    ∀ mem : AppMemory, mem.Reached →
      ∃ s, NodeMessage.decode (NodeMessage.memory mem.snapshot).encode = .ok (.memory s) ∧ s.Shows mem := by
  refine ⟨fun m => HostMessage.decode_encode, fun id => NodeMessage.decode_appId, fun mem hm => ?_⟩
  obtain ⟨s, hs, hshows⟩ := hm.parse_snapshot
  have happ : Word.fitsSigned32 mem.snapshot.appId = true := hm.sized.app
  refine ⟨s, ?_, hshows⟩
  rw [NodeMessage.decode_memory happ, show mem.snapshot.appId = mem.appId from rfl, hs]
  rfl

/-- Numbers at the limits of their words, and a memory with the least value in a register, an empty array at a negative
address and one mapped qubit of three. -/
theorem messages_survive_their_text_at_limits :
    HostMessage.decode (HostMessage.initNewApp 0xffffffffffffffff).encode = .ok (.initNewApp 0xffffffffffffffff) ∧
    HostMessage.decode (HostMessage.openSocket (-0x80000000) 0x7fffffff 0).encode =
      .ok (.openSocket (-0x80000000) 0x7fffffff 0) ∧
    NodeMessage.decode (NodeMessage.appId (-1)).encode = .ok (.appId (-1)) ∧
    ∃ mem : AppMemory, mem.register ⟨.R, 0⟩ = .ok (some (-0x8000000000000000)) ∧
      mem.arrays.get? (-7) = some #[] ∧ mem.phys? 0 = none ∧ mem.phys? 1 = some 7 ∧
      ∃ s, NodeMessage.decode (NodeMessage.memory mem.snapshot).encode = .ok (.memory s) ∧ s.Shows mem := by
  obtain ⟨hhost, hid, hmem⟩ := messages_survive_their_text
  refine ⟨hhost (.initNewApp 0xffffffffffffffff) (Nat.lt_succ_self _),
    hhost (.openSocket (-0x80000000) 0x7fffffff 0) ⟨by decide, by decide, by decide⟩, hid (-1) (by decide), ?_⟩
  have hleast : ∀ w ∈ some (-0x8000000000000000 : Int), Word.fitsSigned64 w = true := by
    rintro w ⟨⟩
    decide
  have hphys (v : Nat) : ((AppMemory.new (-1) 3).initArray (-7) 0).phys? v = none := AppMemory.phys?_new (-1) 3 v
  have hstart : ((AppMemory.new (-1) 3).initArray (-7) 0).Reached :=
    .initArray (.new (by decide) (by decide)) (by decide) 0
  have hmapped := hstart.mapQubit (by decide) (AppMemory.mapQubit_of_free (v := 1) (p := 7) (by decide) (hphys 1)
    fun v => by simp [hphys v])
  exact ⟨_, rfl, rfl, rfl, rfl, hmem _ (.setRegister (r := ⟨.R, 0⟩) hmapped hleast rfl)⟩

end QuantumNode
