import OtTcpListener.Platform.Inet
import OtTcpListener.Sniffer.Monitor

/-!
# Sending an ARP request

`Arp::sendArpPacket` asks the kernel for the hardware address of the interface through one socket,
builds an Ethernet frame with an ARP request in it, and sends the frame through another. The program
has its own declaration of the ARP header for this; what it captures it reads with the declarations
of the system.

`Kernel` is what the system answers during one call, and the descriptors of the open sockets are
the state that a call works on. Two exits leave a socket behind: the one after the query for the
hardware address has failed, and the one after the frame could not be sent (`card_sendArpPacket`).

A frame that is sent and captured whole is recognised as ARP, and what is read from it are the
addresses it was made with (`MonitorPcap_sendArpPacket`).
-/

namespace OtTcpListener

open Bytes Probe QString Sniffer

namespace Arp

/-! ## The system -/

/-- The answers of the system to one call of `sendArpPacket`. -/
structure Kernel where
  /-- Whether `socket(AF_INET, SOCK_RAW, IPPROTO_RAW)` is granted. -/
  inetSocket : Bool
  /-- `ioctl` with `SIOCGIFHWADDR`, for a name: the hardware address, or `none` for failure. -/
  ioctl : Bytes → Option EtherAddr
  /-- `if_nametoindex`. -/
  if_nametoindex : Bytes → ℕ
  /-- `inet_pton` with `AF_INET`. -/
  inet_pton : Bytes → Option InAddr
  /-- `getaddrinfo`: the first address found, or `none` for failure. -/
  getaddrinfo : Bytes → Option InAddr
  /-- Whether `socket(PF_PACKET, SOCK_RAW, htons(ETH_P_ALL))` is granted. -/
  packetSocket : Bool
  /-- `sendto`: the number of bytes sent, or a negative number. -/
  sendto : List UInt8 → ℤ

/-- The descriptor `socket` returns: the lowest that is not open. -/
def lowest (fds : Finset ℕ) : ℕ := Nat.find (Infinite.exists_notMem_finset fds)

theorem lowest_notMem (fds : Finset ℕ) : lowest fds ∉ fds :=
  Nat.find_spec (Infinite.exists_notMem_finset fds)

/-- `socket`: a descriptor and the open ones with it. -/
def socket (granted : Bool) (fds : Finset ℕ) : Option (ℕ × Finset ℕ) :=
  if granted then some (lowest fds, insert (lowest fds) fds) else none

/-- `close`. -/
def close (sd : ℕ) (fds : Finset ℕ) : Finset ℕ := fds.erase sd

/-! ## The frame -/

/-- Storing a `uint16_t`: the low byte comes first. -/
def storeUShort (x : UInt16) : List UInt8 := [.ofNat (x.toNat % 256), .ofNat (x.toNat / 256)]

/-- `memcpy` to an offset. -/
def memcpy (m : Memory) (offset : ℕ) (bytes : List UInt8) : Memory := fun i ↦
  if offset ≤ i ∧ i < offset + bytes.length then bytes.getD (i - offset) 0 else m i

def ETH_HDRLEN : ℕ := 14

def ARP_HDRLEN : ℕ := 28

def ARPOP_REQUEST : UInt16 := 1

def ETH_P_IP : UInt16 := 0x0800

def ETH_P_ARP : ℕ := 0x0806

/-- `struct arp_hdr`. -/
structure arp_hdr where
  htype : UInt16
  ptype : UInt16
  hlen : UInt8
  plen : UInt8
  opcode : UInt16
  sender_mac : EtherAddr
  sender_ip : InAddr
  target_mac : EtherAddr
  target_ip : InAddr

/-- A `struct arp_hdr` in memory. No member needs padding in front of it. -/
def arp_hdr.bytes (h : arp_hdr) : List UInt8 :=
  storeUShort h.htype ++ storeUShort h.ptype ++ [h.hlen, h.plen] ++ storeUShort h.opcode ++
    h.sender_mac.bytes ++ h.sender_ip.bytes ++ h.target_mac.bytes ++ h.target_ip.bytes

/-- The part of `sendArpPacket` that fills `arpheader`. -/
def arpheader (src_mac : EtherAddr) (sender_ip target_ip : InAddr) : arp_hdr where
  htype := htons 1
  ptype := htons ETH_P_IP
  hlen := 6
  plen := 4
  opcode := htons ARPOP_REQUEST
  sender_mac := src_mac
  sender_ip := sender_ip
  target_mac := ⟨0, 0, 0, 0, 0, 0⟩
  target_ip := target_ip

/-- The part of `sendArpPacket` that fills `ether_frame`: the bytes handed to `sendto`. -/
def frame (src_mac : EtherAddr) (sender_ip target_ip : InAddr) : List UInt8 :=
  let dst_mac : EtherAddr := ⟨0xff, 0xff, 0xff, 0xff, 0xff, 0xff⟩
  let frame_length := 6 + 6 + 2 + ARP_HDRLEN
  let ether_frame : Memory := fun _ ↦ 0
  let ether_frame := memcpy ether_frame 0 dst_mac.bytes
  let ether_frame := memcpy ether_frame 6 src_mac.bytes
  let ether_frame := Function.update ether_frame 12 (.ofNat (ETH_P_ARP / 256))
  let ether_frame := Function.update ether_frame 13 (.ofNat (ETH_P_ARP % 256))
  let ether_frame := memcpy ether_frame ETH_HDRLEN
    ((arpheader src_mac sender_ip target_ip).bytes.take ARP_HDRLEN)
  (List.range frame_length).map ether_frame

/-! ## The call -/

/-- What a call of `sendArpPacket` comes to: the descriptors open afterwards, and the frame handed
to `sendto`, if it got that far. -/
structure Call where
  fds : Finset ℕ
  sent : Option (List UInt8)

/-- `Arp::sendArpPacket`. The copies of the arguments in blocks of 40 and 16 bytes are taken to
fit; the name in `ifr_name` is cut after 15 bytes. -/
def sendArpPacket (kernel : Kernel) (fds : Finset ℕ) (src_ip_addr targ_ip_addr eth_device : Bytes) :
    Call :=
  let interface := c_str eth_device
  match socket kernel.inetSocket fds with
  | none => ⟨fds, none⟩
  | some (sd, fds) =>
    match kernel.ioctl (interface.take 15) with
    | none => ⟨fds, none⟩
    | some src_mac =>
      let fds := close sd fds
      if kernel.if_nametoindex interface = 0 then ⟨fds, none⟩
      else
        match kernel.inet_pton (c_str src_ip_addr) with
        | none => ⟨fds, none⟩
        | some sender_ip =>
          match kernel.getaddrinfo (c_str targ_ip_addr) with
          | none => ⟨fds, none⟩
          | some target_ip =>
            let ether_frame := frame src_mac sender_ip target_ip
            match socket kernel.packetSocket fds with
            | none => ⟨fds, none⟩
            | some (sd, fds) =>
              if kernel.sendto ether_frame ≤ 0 then ⟨fds, some ether_frame⟩
              else ⟨close sd fds, some ether_frame⟩

/-! ## What is sent -/

/-- Copying behind what has been written appends. -/
theorem map_range_memcpy (m : Memory) (n : ℕ) (bytes : List UInt8) :
    (List.range (n + bytes.length)).map (memcpy m n bytes) = (List.range n).map m ++ bytes := by
  have hbefore : ∀ i ∈ List.range n, memcpy m n bytes i = m i := fun i hi ↦ by
    rw [List.mem_range] at hi
    exact if_neg (by omega)
  have hcopied : (List.range bytes.length).map (fun i ↦ memcpy m n bytes (n + i)) = bytes := by
    refine List.ext_getElem (by rw [List.length_map, List.length_range]) fun i hi hi' ↦ ?_
    rw [List.getElem_map, List.getElem_range, memcpy, if_pos (by omega), Nat.add_sub_cancel_left,
      List.getD_eq_getElem _ _ hi']
  rw [List.range_add, List.map_append, List.map_map, List.map_congr_left hbefore]
  exact congrArg _ hcopied

/-- So does storing one byte. -/
theorem map_range_update (m : Memory) (n : ℕ) (b : UInt8) :
    (List.range (n + 1)).map (Function.update m n b) = (List.range n).map m ++ [b] := by
  have hbefore : ∀ i ∈ List.range n, Function.update m n b i = m i := fun i hi ↦
    Function.update_of_ne (List.mem_range.mp hi).ne _ _
  rw [List.range_succ, List.map_append, List.map_congr_left hbefore, List.map_singleton,
    Function.update_self]

/-- The header in memory. -/
theorem bytes_arpheader (mac : EtherAddr) (sender target : InAddr) :
    (arpheader mac sender target).bytes = [0, 1, 8, 0, 6, 4, 0, 1] ++ mac.bytes ++ sender.bytes ++
      List.replicate 6 0 ++ target.bytes := by
  have hone : storeUShort (htons 1) = [0, 1] := by decide
  have hip : storeUShort (htons ETH_P_IP) = [8, 0] := by decide
  have hrequest : storeUShort (htons ARPOP_REQUEST) = [0, 1] := by decide
  rw [arp_hdr.bytes]
  dsimp only [arpheader]
  rw [hone, hip, hrequest]
  rfl

/-- The frame, part by part. -/
theorem frame_eq (mac : EtherAddr) (sender target : InAddr) :
    frame mac sender target = List.replicate 6 0xff ++ mac.bytes ++ [8] ++ [6] ++
      ([0, 1, 8, 0, 6, 4, 0, 1] ++ mac.bytes ++ sender.bytes ++ List.replicate 6 0 ++
        target.bytes) := by
  have hdst (m : Memory) (dst : EtherAddr) :
      (List.range 6).map (memcpy m 0 dst.bytes) = dst.bytes := map_range_memcpy m 0 dst.bytes
  have hsrc (m : Memory) :
      (List.range 12).map (memcpy m 6 mac.bytes) = (List.range 6).map m ++ mac.bytes :=
    map_range_memcpy m 6 mac.bytes
  have hheader (m : Memory) (h : arp_hdr) :
      (List.range (6 + 6 + 2 + ARP_HDRLEN)).map (memcpy m ETH_HDRLEN (h.bytes.take ARP_HDRLEN)) =
        (List.range (13 + 1)).map m ++ h.bytes.take ARP_HDRLEN :=
    map_range_memcpy m ETH_HDRLEN (h.bytes.take ARP_HDRLEN)
  have htype (m : Memory) (b : UInt8) :
      (List.range 13).map (Function.update m 12 b) = (List.range 12).map m ++ [b] :=
    map_range_update m 12 b
  have htake (h : arp_hdr) : h.bytes.take ARP_HDRLEN = h.bytes :=
    List.take_of_length_le (Nat.le_of_eq rfl)
  have hhigh : UInt8.ofNat (ETH_P_ARP / 256) = 8 := by decide
  have hlow : UInt8.ofNat (ETH_P_ARP % 256) = 6 := by decide
  rw [frame, hheader, map_range_update, htype, hsrc, hdst, htake, bytes_arpheader, hhigh, hlow]
  rfl

theorem length_frame (mac : EtherAddr) (sender target : InAddr) :
    (frame mac sender target).length = 42 := by
  rw [frame_eq]
  rfl

/-- The two bytes of each field that is tested. -/
theorem htons_run_loadUShort_frame (mac : EtherAddr) (sender target : InAddr) (beyond : Memory) :
    htons ((loadUShort 12).run (buffer (frame mac sender target) beyond)) = ETHERTYPE_ARP ∧
      htons ((loadUShort (sizeofEtherHeader + 2)).run (buffer (frame mac sender target) beyond)) =
        ETHERTYPE_IP ∧
      htons ((loadUShort (sizeofEtherHeader + 6)).run (buffer (frame mac sender target) beyond)) =
        ARP_REQUEST := by
  rw [htons_run_loadUShort, htons_run_loadUShort, htons_run_loadUShort, frame_eq]
  have htype : be16 8 6 = ETHERTYPE_ARP := by decide
  have hpro : be16 8 0 = ETHERTYPE_IP := by decide
  have hop : be16 0 1 = ARP_REQUEST := by decide
  exact ⟨htype, hpro, hop⟩

/-- The two addresses that are read. -/
theorem run_load_frame (mac : EtherAddr) (sender target : InAddr) (beyond : Memory) :
    (EtherAddr.load (sizeofEtherHeader + 8)).run (buffer (frame mac sender target) beyond) = mac ∧
      (InAddr.load (sizeofEtherHeader + 14)).run (buffer (frame mac sender target) beyond) =
        sender := by
  rw [EtherAddr.run_load, InAddr.run_load, frame_eq]
  exact ⟨rfl, rfl⟩

/-- Looking at the frame. -/
theorem visit_frame (mac : EtherAddr) (sender target : InAddr)
    (h : (frame mac sender target).length < 2 ^ 32) (heap : Heap) (beyond : Memory) :
    (Captured.whole (frame mac sender target) h).visit heap beyond =
      .arp (some (inet_ntoa sender, join (mac.bytes.map hexByte) ':')) := by
  obtain ⟨htype, hpro, hop⟩ := htons_run_loadUShort_frame mac sender target beyond
  obtain ⟨hsha, hspa⟩ := run_load_frame mac sender target beyond
  have harp : processArpPacket.run (buffer (frame mac sender target) beyond) =
      some (inet_ntoa sender, join (mac.bytes.map hexByte) ':') := by
    rw [processArpPacket, run_bind, ArpHdr.run_load]
    dsimp only
    rw [hop, hpro, if_pos (.inl rfl), if_neg (not_not.mpr rfl), run_bind, run_bind, run_pure, hspa,
      hsha]
    rfl
  have hwhole : (Captured.whole (frame mac sender target) h).bytes = frame mac sender target := rfl
  rw [Captured.visit, hwhole, dispatch, Captured.toNat_caplen_whole, length_frame,
    if_pos (by decide), run_bind, run_map, htype, if_neg (by decide), if_pos rfl, run_bind, harp,
    run_pure]

/-! ## Sockets -/

/-- The two exits of `sendArpPacket` that do not close the socket they have opened: the query for
the hardware address fails, or everything succeeds up to `sendto`, which fails or sends nothing. -/
def LeavesSocket (kernel : Kernel) (src_ip_addr targ_ip_addr eth_device : Bytes) : Prop :=
  kernel.inetSocket = true ∧
    (kernel.ioctl ((c_str eth_device).take 15) = none ∨
      ∃ mac sender target, kernel.ioctl ((c_str eth_device).take 15) = some mac ∧
        kernel.if_nametoindex (c_str eth_device) ≠ 0 ∧
        kernel.inet_pton (c_str src_ip_addr) = some sender ∧
        kernel.getaddrinfo (c_str targ_ip_addr) = some target ∧
        kernel.packetSocket = true ∧ kernel.sendto (frame mac sender target) ≤ 0)

theorem close_lowest (fds : Finset ℕ) : close (lowest fds) (insert (lowest fds) fds) = fds :=
  Finset.erase_insert (lowest_notMem fds)

variable {kernel : Kernel} {fds : Finset ℕ} {src_ip_addr targ_ip_addr eth_device : Bytes}

/-- The first half of a call: without a socket or a hardware address it ends, and otherwise the
first socket is closed before anything else happens. -/
theorem sendArpPacket_of_ioctl {mac : EtherAddr} (hinet : kernel.inetSocket = true)
    (hioctl : kernel.ioctl ((c_str eth_device).take 15) = some mac) :
    sendArpPacket kernel fds src_ip_addr targ_ip_addr eth_device =
      if kernel.if_nametoindex (c_str eth_device) = 0 then ⟨fds, none⟩
      else
        match kernel.inet_pton (c_str src_ip_addr), kernel.getaddrinfo (c_str targ_ip_addr) with
        | some sender, some target =>
          if kernel.packetSocket then
            ⟨if kernel.sendto (frame mac sender target) ≤ 0 then insert (lowest fds) fds else fds,
              some (frame mac sender target)⟩
          else ⟨fds, none⟩
        | _, _ => ⟨fds, none⟩ := by
  rw [sendArpPacket, socket, if_pos hinet]
  dsimp only
  rw [hioctl]
  dsimp only
  rw [close_lowest]
  by_cases hindex : kernel.if_nametoindex (c_str eth_device) = 0
  · rw [if_pos hindex, if_pos hindex]
  · rw [if_neg hindex, if_neg hindex]
    cases kernel.inet_pton (c_str src_ip_addr) with
    | none => rfl
    | some sender =>
      cases kernel.getaddrinfo (c_str targ_ip_addr) with
      | none => rfl
      | some target =>
        dsimp only
        rw [socket]
        cases kernel.packetSocket with
        | false => rfl
        | true =>
          rw [if_pos rfl, if_pos rfl]
          dsimp only
          rw [close_lowest]
          split <;> rfl

theorem fds_sendArpPacket_of_leavesSocket
    (h : LeavesSocket kernel src_ip_addr targ_ip_addr eth_device) :
    (sendArpPacket kernel fds src_ip_addr targ_ip_addr eth_device).fds =
      insert (lowest fds) fds := by
  obtain ⟨hinet, hioctl | ⟨mac, sender, target, hioctl, hindex, hsender, htarget, hpacket, hsendto⟩⟩
    := h
  · rw [sendArpPacket, socket, if_pos hinet]
    dsimp only
    rw [hioctl]
  · rw [sendArpPacket_of_ioctl hinet hioctl, if_neg hindex, hsender, htarget]
    dsimp only
    rw [if_pos hpacket, if_pos hsendto]

theorem fds_sendArpPacket_of_not (h : ¬LeavesSocket kernel src_ip_addr targ_ip_addr eth_device) :
    (sendArpPacket kernel fds src_ip_addr targ_ip_addr eth_device).fds = fds := by
  cases hinet : kernel.inetSocket with
  | false =>
    rw [sendArpPacket, socket, hinet]
    rfl
  | true =>
    cases hioctl : kernel.ioctl ((c_str eth_device).take 15) with
    | none => exact absurd ⟨hinet, .inl hioctl⟩ h
    | some mac =>
      rw [sendArpPacket_of_ioctl hinet hioctl]
      by_cases hindex : kernel.if_nametoindex (c_str eth_device) = 0
      · rw [if_pos hindex]
      · rw [if_neg hindex]
        cases hsender : kernel.inet_pton (c_str src_ip_addr) with
        | none => rfl
        | some sender =>
          cases htarget : kernel.getaddrinfo (c_str targ_ip_addr) with
          | none => rfl
          | some target =>
            dsimp only
            cases hpacket : kernel.packetSocket with
            | false => rfl
            | true =>
              have hsendto : ¬kernel.sendto (frame mac sender target) ≤ 0 := fun hle ↦
                h ⟨hinet, .inr ⟨mac, sender, target, hioctl, hindex, hsender, htarget, hpacket,
                  hle⟩⟩
              rw [if_pos rfl, if_neg hsendto]

/-- A call leaves one more socket open than there were, or as many as there were. -/
theorem card_sendArpPacket_iff :
    (sendArpPacket kernel fds src_ip_addr targ_ip_addr eth_device).fds.card = fds.card ↔
      ¬LeavesSocket kernel src_ip_addr targ_ip_addr eth_device := by
  constructor
  · intro hcard h
    rw [fds_sendArpPacket_of_leavesSocket h,
      Finset.card_insert_of_notMem (lowest_notMem fds)] at hcard
    omega
  · intro h
    rw [fds_sendArpPacket_of_not h]

/-! ## What is read from the frame -/

/-- With a hardware address and two protocol addresses found, what is sent is the frame made of
them. -/
theorem sent_sendArpPacket {mac : EtherAddr} {sender target : InAddr}
    (hioctl : kernel.ioctl ((c_str eth_device).take 15) = some mac)
    (hsender : kernel.inet_pton (c_str src_ip_addr) = some sender)
    (htarget : kernel.getaddrinfo (c_str targ_ip_addr) = some target) :
    (sendArpPacket kernel fds src_ip_addr targ_ip_addr eth_device).sent =
      if kernel.inetSocket = true ∧ kernel.if_nametoindex (c_str eth_device) ≠ 0 ∧
          kernel.packetSocket = true then some (frame mac sender target)
      else none := by
  cases hinet : kernel.inetSocket with
  | false =>
    rw [sendArpPacket, socket, hinet]
    rfl
  | true =>
    rw [sendArpPacket_of_ioctl hinet hioctl, hsender, htarget]
    by_cases hindex : kernel.if_nametoindex (c_str eth_device) = 0
    · rw [if_pos hindex, if_neg fun h ↦ h.2.1 hindex]
    · rw [if_neg hindex]
      dsimp only
      cases kernel.packetSocket with
      | false => rw [if_neg Bool.false_ne_true, if_neg fun h ↦ Bool.false_ne_true h.2.2]
      | true =>
        rw [if_pos (And.intro rfl (And.intro hindex rfl))]
        rfl

/-- **Sender and reader agree.** A frame is sent when the sockets are granted and the interface has
an index. It has 42 bytes, and captured whole it is handed to `processArpPacket`, which passes it
and reads the sender's two addresses from it. -/
theorem MonitorPcap_sendArpPacket {mac : EtherAddr} {sender target : InAddr}
    (hioctl : kernel.ioctl ((c_str eth_device).take 15) = some mac)
    (hsender : kernel.inet_pton (c_str (toStdString (inet_ntoa sender))) = some sender)
    (htarget : kernel.getaddrinfo (c_str (toStdString (inet_ntoa target))) = some target) :
    let call := sendArpPacket kernel fds (toStdString (inet_ntoa sender))
      (toStdString (inet_ntoa target)) eth_device
    (call.sent ≠ none ↔ kernel.inetSocket = true ∧
      kernel.if_nametoindex (c_str eth_device) ≠ 0 ∧ kernel.packetSocket = true) ∧
    ∀ bytes, call.sent = some bytes → bytes.length = 42 ∧
      ∀ (h : bytes.length < 2 ^ 32) (heap : Heap) (beyond : Memory) (unset : Pointee),
        MonitorPcap heap false (.frame (.whole bytes h) beyond) unset =
          some (.delivered (.whole bytes h),
            .arp (some (inet_ntoa sender, join (mac.bytes.map hexByte) ':'))) := by
  intro call
  have hsent : call.sent = _ := sent_sendArpPacket hioctl hsender htarget
  rw [hsent]
  constructor
  · rw [ne_eq, ite_eq_right_iff]
    simp
  · intro bytes hbytes
    obtain ⟨-, hframe⟩ := Option.ite_none_right_eq_some.mp hbytes
    obtain rfl := Option.some.inj hframe
    refine ⟨length_frame mac sender target, fun h heap beyond unset ↦ ?_⟩
    rw [MonitorPcap_frame, visit_frame]

/-- An interface `eth0`, on a system that grants everything and finds numeric addresses by reading
them. -/
def eth0 : Kernel where
  inetSocket := true
  ioctl name := if name = ascii "eth0" then some ⟨0x02, 0x42, 0xac, 0x11, 0, 2⟩ else none
  if_nametoindex name := if name = ascii "eth0" then 2 else 0
  inet_pton := OtTcpListener.inet_pton
  getaddrinfo := OtTcpListener.inet_pton
  packetSocket := true
  sendto bytes := bytes.length

theorem MonitorPcap_sendArpPacket_eth0 :
    ∃ bytes, (sendArpPacket eth0 {0, 1, 2} (toStdString (inet_ntoa ⟨192, 168, 1, 5⟩))
        (toStdString (inet_ntoa ⟨192, 168, 1, 9⟩)) (ascii "eth0")).sent = some bytes ∧
      bytes.length = 42 ∧
      ∀ (h : bytes.length < 2 ^ 32) (heap : Heap) (beyond : Memory) (unset : Pointee),
        MonitorPcap heap false (.frame (.whole bytes h) beyond) unset =
          some (.delivered (.whole bytes h), .arp (some ("192.168.1.5", "02:42:ac:11:00:02"))) := by
  have hioctl : eth0.ioctl ((c_str (ascii "eth0")).take 15) =
      some ⟨0x02, 0x42, 0xac, 0x11, 0, 2⟩ := by decide +kernel
  have hindex : eth0.if_nametoindex (c_str (ascii "eth0")) ≠ 0 := by decide +kernel
  have hpton : eth0.inet_pton = OtTcpListener.inet_pton := rfl
  have hinfo : eth0.getaddrinfo = OtTcpListener.inet_pton := rfl
  have hsender (a : InAddr) : eth0.inet_pton (c_str (toStdString (inet_ntoa a))) = some a := by
    rw [hpton, inet_pton_inet_ntoa]
  have htarget (a : InAddr) : eth0.getaddrinfo (c_str (toStdString (inet_ntoa a))) = some a := by
    rw [hinfo, inet_pton_inet_ntoa]
  have hsip : inet_ntoa ⟨192, 168, 1, 5⟩ = "192.168.1.5" := by decide +kernel
  have hsmac : join ((EtherAddr.mk 0x02 0x42 0xac 0x11 0 2).bytes.map hexByte) ':' =
      "02:42:ac:11:00:02" := by decide +kernel
  obtain ⟨hiff, hread⟩ := @MonitorPcap_sendArpPacket eth0 {0, 1, 2} (ascii "eth0") _
    ⟨192, 168, 1, 5⟩ ⟨192, 168, 1, 9⟩ hioctl (hsender _) (htarget _)
  obtain ⟨bytes, hbytes⟩ := Option.ne_none_iff_exists'.mp (hiff.mpr ⟨rfl, hindex, rfl⟩)
  obtain ⟨hlen, hmonitor⟩ := hread bytes hbytes
  rw [hsip, hsmac] at hmonitor
  exact ⟨bytes, hbytes, hlen, hmonitor⟩

end Arp

end OtTcpListener
