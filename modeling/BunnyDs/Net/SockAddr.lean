import BunnyDs.Bytes
import BunnyDs.Err
import Mathlib.Logic.Equiv.Defs

/-!
# Socket addresses

`soc:U` has its own layout of an IPv4 address: a length byte, a family byte, the port (big endian)
and the four octets.  `sockaddr_as_bytes` and `read_sockaddr` convert between it and libc's
`sockaddr`, a 16-bit family followed by 26 data bytes, by raw copies; a copy that leaves one of
the two buffers is undefined behaviour.

* `Socket2` is what the conversions of `socket2`, from and to a `SocketAddrV4`, are taken to do: the
  layout of libc's `sockaddr_in`.
* `sockaddrAsBytes` and `readSockaddr` say byte by byte what the two compute, and `Raw` has them
  access by access, over any `Socket2`, with the copies, the indexings and the 32-bit arithmetic of
  the length.  The two agree (`Raw.sockaddrAsBytes_eq`, `Raw.readSockaddr_eq`,
  `Socket2.asSocketIpv4_eq`).
* `ServiceAddr` is the layout of `soc:U`, eight bytes that are well formed; the IPv4 addresses and
  they are in bijection (`ServiceAddr.equivV4`).
* `codec_round_trips` : reading gives back what was written, and writing what was read.
-/

namespace BunnyDs

/-- `AF_INET`. -/
def afInet : UInt16 := 2

/-- `SocketAddrV4`: the four octets and the port. -/
structure SocketAddrV4 where
  octets : Vector UInt8 4
  port : UInt16
  deriving DecidableEq

/-- `SockAddr`: libc's `sockaddr` with a length. -/
structure SockAddr where
  family : UInt16
  data : Vector UInt8 26
  len : ℕ
  deriving DecidableEq

/-- The layout of `sockaddr_in`: the family, the port and the octets, in 16 bytes. -/
def SockAddr.ofV4 (addr : SocketAddrV4) : SockAddr where
  family := afInet
  data := Vector.ofFn fun i =>
    if i = 0 then (addr.port >>> 8).toUInt8
    else if i = 1 then addr.port.toUInt8
    else if h : i.val - 2 < 4 then addr.octets.get ⟨i.val - 2, h⟩
    else 0
  len := 16

/-- The octets and the port that the data bytes of a `sockaddr_in` spell. -/
def SockAddr.inet (addr : SockAddr) : SocketAddrV4 :=
  ⟨Vector.ofFn fun i => addr.data.get ⟨i.val + 2, by omega⟩,
    (addr.data[0].toUInt16 <<< 8) ||| addr.data[1].toUInt16⟩

/-- The address, if it is a `sockaddr_in`. -/
def SockAddr.asSocketIpv4 (addr : SockAddr) : Option SocketAddrV4 :=
  if addr.family = afInet then some addr.inet else none

/-- The conversions of `socket2`, and what is assumed of them: an IPv4 address is a `sockaddr_in` of
16 bytes, with the port in network order, and nothing else is one. -/
structure Socket2 where
  /-- `SockAddr::from`. -/
  ofV4 : SocketAddrV4 → SockAddr
  /-- `SockAddr::as_socket_ipv4`. -/
  asSocketIpv4 : SockAddr → Option SocketAddrV4
  family_ofV4 : ∀ addr, (ofV4 addr).family = afInet
  len_ofV4 : ∀ addr, (ofV4 addr).len = 16
  port_ofV4 : ∀ addr, (ofV4 addr).data[0] = (addr.port >>> 8).toUInt8 ∧
    (ofV4 addr).data[1] = addr.port.toUInt8
  octet_ofV4 : ∀ addr (i : ℕ) (hi : i < 4), (ofV4 addr).data[i + 2] = addr.octets[i]
  asSocketIpv4_inet : ∀ addr, addr.family = afInet → asSocketIpv4 addr = some addr.inet
  asSocketIpv4_other : ∀ addr, addr.family ≠ afInet → asSocketIpv4 addr = none

/-- `sockaddr_as_bytes`: the length, the family, and six bytes of the `sockaddr_in`. -/
def sockaddrAsBytes (addr : SocketAddrV4) : Vector UInt8 8 :=
  let storage := SockAddr.ofV4 addr
  Vector.ofFn fun i =>
    if i = 0 then 8
    else if i = 1 then storage.family.toUInt8
    else storage.data.get ⟨i.val - 2, by omega⟩

/-- `read_sockaddr`.  The copy of `user_addrlen - 2` bytes must stay inside the buffer and inside
`sa_data`; a length below 2 wraps around. -/
def readSockaddr (tmpaddr : Vector UInt8 0x1C) : Outcome SockAddr :=
  let family := tmpaddr[1].toUInt16
  let userAddrlen := tmpaddr[0].toNat + if family = afInet then 8 else 0
  if userAddrlen < 2 ∨ 0x1C < userAddrlen then .ub
  else .ok ⟨family,
    Vector.ofFn fun i => if i.val < userAddrlen - 2 then tmpaddr.get ⟨i.val + 2, by omega⟩ else 0,
    userAddrlen⟩

/-- A well-formed `AF_INET` address in the layout of `soc:U`. -/
def WellFormedAddr (tmpaddr : Vector UInt8 0x1C) : Prop :=
  tmpaddr[0] = 8 ∧ tmpaddr[1].toUInt16 = afInet

/-! ### The conversions, access by access -/

namespace Raw

/-- `sockaddr_as_bytes`: the family test, the two header bytes, the copy of six data bytes. -/
def sockaddrAsBytes (lib : Socket2) (addr : SocketAddrV4) : Outcome (Vector UInt8 8) :=
  let addr := lib.ofV4 addr
  let tmpAddr := Vector.replicate 8 (0 : UInt8)
  if addr.family ≠ afInet then .panic
  else
    let tmpAddr := (tmpAddr.set 0 8).set 1 addr.family.toUInt8
    match Bytes.copy addr.data 0 tmpAddr 2 6 with
    | some tmpAddr => .ok tmpAddr
    | none => .ub

/-- The `user_addrlen` of `read_sockaddr`, a 32-bit `usize`. -/
def userAddrlen (length family : UInt8) : UInt32 :=
  if family.toUInt16 = afInet then length.toUInt32 + 8 else length.toUInt32

/-- `read_sockaddr` on a slice of any length: the two indexings may panic, the subtraction wraps
around, and nothing checks the copy. -/
def readSockaddr {n : ℕ} (tmpaddr : Vector UInt8 n) : Outcome SockAddr :=
  match tmpaddr[1]?, tmpaddr[0]? with
  | some family, some length =>
    let userAddrlen := userAddrlen length family
    match Bytes.copy tmpaddr 2 (Vector.replicate 26 0) 0 (userAddrlen - 2).toNat with
    | some data => .ok ⟨family.toUInt16, data, userAddrlen.toNat⟩
    | none => .ub
  | _, _ => .panic

end Raw

/-! ### Which bytes go where -/

theorem getElem_ofV4_port (addr : SocketAddrV4) :
    (SockAddr.ofV4 addr).data[0] = (addr.port >>> 8).toUInt8 ∧
      (SockAddr.ofV4 addr).data[1] = addr.port.toUInt8 := by
  simp [SockAddr.ofV4]

theorem getElem_ofV4_octet (addr : SocketAddrV4) {i : ℕ} (hi : i < 4) :
    (SockAddr.ofV4 addr).data[i + 2] = addr.octets[i] := by
  have h0 : (⟨i + 2, by omega⟩ : Fin 26) ≠ 0 := Fin.ne_of_val_ne (by simp)
  have h1 : (⟨i + 2, by omega⟩ : Fin 26) ≠ 1 := Fin.ne_of_val_ne (by simp)
  rw [SockAddr.ofV4, Vector.getElem_ofFn, if_neg h0, if_neg h1, dif_pos (by simpa using hi)]
  rfl

/-- `socket2` as it is: the assumptions can be met. -/
def Socket2.libc : Socket2 where
  ofV4 := SockAddr.ofV4
  asSocketIpv4 := SockAddr.asSocketIpv4
  family_ofV4 _ := rfl
  len_ofV4 _ := rfl
  port_ofV4 := getElem_ofV4_port
  octet_ofV4 addr _ hi := getElem_ofV4_octet addr hi
  asSocketIpv4_inet _ h := if_pos h
  asSocketIpv4_other _ h := if_neg h

theorem Socket2.asSocketIpv4_eq (lib : Socket2) (addr : SockAddr) :
    lib.asSocketIpv4 addr = addr.asSocketIpv4 := by
  by_cases h : addr.family = afInet
  · rw [lib.asSocketIpv4_inet addr h, SockAddr.asSocketIpv4, if_pos h]
  · rw [lib.asSocketIpv4_other addr h, SockAddr.asSocketIpv4, if_neg h]

/-- The six bytes that `sockaddr_as_bytes` copies. -/
theorem Socket2.getElem_ofV4 (lib : Socket2) (addr : SocketAddrV4) {i : ℕ} (hi : i < 6) :
    (lib.ofV4 addr).data[i] = (SockAddr.ofV4 addr).data[i] := by
  obtain rfl | rfl | hoctet : i = 0 ∨ i = 1 ∨ 2 ≤ i := by omega
  · exact (lib.port_ofV4 addr).1.trans (getElem_ofV4_port addr).1.symm
  · exact (lib.port_ofV4 addr).2.trans (getElem_ofV4_port addr).2.symm
  · obtain ⟨k, rfl⟩ := Nat.exists_eq_add_of_le' hoctet
    exact (lib.octet_ofV4 addr k (by omega)).trans (getElem_ofV4_octet addr (by omega)).symm

theorem getElem_sockaddrAsBytes_header (addr : SocketAddrV4) :
    (sockaddrAsBytes addr)[0] = 8 ∧ (sockaddrAsBytes addr)[1] = afInet.toUInt8 := by
  simp [sockaddrAsBytes, SockAddr.ofV4]

theorem getElem_sockaddrAsBytes_data (addr : SocketAddrV4) {i : ℕ} (hi : i < 6) :
    (sockaddrAsBytes addr)[i + 2] = (SockAddr.ofV4 addr).data[i] := by
  have h0 : (⟨i + 2, by omega⟩ : Fin 8) ≠ 0 := Fin.ne_of_val_ne (by simp)
  have h1 : (⟨i + 2, by omega⟩ : Fin 8) ≠ 1 := Fin.ne_of_val_ne (by simp)
  rw [sockaddrAsBytes, Vector.getElem_ofFn, if_neg h0, if_neg h1]
  rfl

theorem getElem_sockaddrAsBytes_port (addr : SocketAddrV4) :
    (sockaddrAsBytes addr)[2] = (addr.port >>> 8).toUInt8 ∧
      (sockaddrAsBytes addr)[3] = addr.port.toUInt8 := by
  obtain ⟨hhigh, hlow⟩ := getElem_ofV4_port addr
  refine ⟨?_, ?_⟩
  · exact (getElem_sockaddrAsBytes_data addr (by decide)).trans hhigh
  · exact (getElem_sockaddrAsBytes_data addr (by decide)).trans hlow

theorem getElem_sockaddrAsBytes_octet (addr : SocketAddrV4) {i : ℕ} (hi : i < 4) :
    (sockaddrAsBytes addr)[i + 4] = addr.octets[i] :=
  (getElem_sockaddrAsBytes_data addr (by omega)).trans (getElem_ofV4_octet addr hi)

/-- `sockaddr_as_bytes` does not panic and copies inside its buffers. -/
theorem Raw.sockaddrAsBytes_eq (lib : Socket2) (addr : SocketAddrV4) :
    Raw.sockaddrAsBytes lib addr = .ok (BunnyDs.sockaddrAsBytes addr) := by
  have hfits : Bytes.Fits 26 0 8 2 6 := by decide
  simp only [Raw.sockaddrAsBytes, lib.family_ofV4, ne_eq, not_true_eq_false, if_false,
    Bytes.copy_of_fits hfits]
  refine congrArg Outcome.ok (Vector.ext ?_)
  intro i hi
  by_cases hdata : 2 ≤ i
  · obtain ⟨k, rfl⟩ := Nat.exists_eq_add_of_le' hdata
    rw [Bytes.getElem_copied_of_mem hfits (by omega), getElem_sockaddrAsBytes_data addr (by omega)]
    simp only [Nat.add_sub_cancel, Nat.zero_add]
    exact lib.getElem_ofV4 addr (by omega)
  · rw [Bytes.getElem_copied_of_notMem hfits (by omega)]
    obtain rfl | rfl : i = 0 ∨ i = 1 := by omega
    · simp [(getElem_sockaddrAsBytes_header addr).1]
    · simp [(getElem_sockaddrAsBytes_header addr).2]

theorem Raw.toNat_userAddrlen (length family : UInt8) :
    (userAddrlen length family).toNat =
      length.toNat + if family.toUInt16 = afInet then 8 else 0 := by
  have hlength : length.toNat < 256 := length.toNat_lt
  have h8 : (8 : UInt32).toNat = 8 := rfl
  unfold userAddrlen
  split_ifs
  · rw [UInt32.toNat_add, UInt8.toNat_toUInt32, h8]
    omega
  · rfl

/-- The copy of `read_sockaddr` stays inside a buffer of 0x1C bytes and `sa_data` just when the
length is between 2 and 0x1C. -/
theorem Raw.fits_iff (userAddrlen : UInt32) :
    Bytes.Fits 0x1C 2 26 0 (userAddrlen - 2).toNat ↔
      ¬(userAddrlen.toNat < 2 ∨ 0x1C < userAddrlen.toNat) := by
  have hlen : userAddrlen.toNat < 2 ^ 32 := userAddrlen.toNat_lt
  have h2 : (2 : UInt32).toNat = 2 := rfl
  rw [Bytes.Fits, UInt32.toNat_sub, h2]
  omega

theorem Raw.toNat_count {userAddrlen : UInt32}
    (h : Bytes.Fits 0x1C 2 26 0 (userAddrlen - 2).toNat) :
    (userAddrlen - 2).toNat = userAddrlen.toNat - 2 := by
  have hlen := (Raw.fits_iff userAddrlen).mp h
  have hle : (2 : UInt32).toNat ≤ userAddrlen.toNat := not_lt.mp fun hlt => hlen (.inl hlt)
  exact UInt32.toNat_sub_of_le _ _ (UInt32.le_iff_toNat_le.mpr hle)

/-- `read_sockaddr` on the buffer of `accept`. -/
theorem Raw.readSockaddr_eq (tmpaddr : Vector UInt8 0x1C) :
    Raw.readSockaddr tmpaddr = BunnyDs.readSockaddr tmpaddr := by
  have h1 : tmpaddr[1]? = some tmpaddr[1] := Vector.getElem?_eq_getElem (by decide)
  have h0 : tmpaddr[0]? = some tmpaddr[0] := Vector.getElem?_eq_getElem (by decide)
  simp only [Raw.readSockaddr, BunnyDs.readSockaddr, h1, h0, ← Raw.toNat_userAddrlen]
  generalize userAddrlen tmpaddr[0] tmpaddr[1] = userAddrlen
  by_cases hfits : Bytes.Fits 0x1C 2 26 0 (userAddrlen - 2).toNat
  · rw [if_neg ((Raw.fits_iff _).mp hfits), Bytes.copy_of_fits hfits]
    refine congrArg (fun data => Outcome.ok (SockAddr.mk _ data _)) (Vector.ext ?_)
    intro i hi
    have hcount := Raw.toNat_count hfits
    rw [Vector.getElem_ofFn]
    by_cases hcopied : i < userAddrlen.toNat - 2
    · rw [Bytes.getElem_copied_of_mem hfits (by omega), if_pos hcopied]
      simp only [Nat.sub_zero, Nat.add_comm 2]
    · rw [Bytes.getElem_copied_of_notMem hfits (by omega), if_neg hcopied, Vector.getElem_replicate]
  · rw [if_pos (not_not.mp fun h => hfits ((Raw.fits_iff _).mpr h)), Bytes.copy_of_not_fits hfits]

/-! ### The layout of `soc:U` -/

/-- The family byte of `soc:U` is the low byte of the family. -/
theorem toUInt16_eq_afInet_iff (family : UInt8) :
    family.toUInt16 = afInet ↔ family = afInet.toUInt8 := by
  constructor
  · intro h
    have hlow : family.toUInt16.toUInt8 = afInet.toUInt8 := congrArg UInt16.toUInt8 h
    rwa [UInt8.toUInt8_toUInt16] at hlow
  · rintro rfl
    rfl

/-- An `AF_INET` address as `soc:U` lays it out: the length byte is 8. -/
@[ext] structure ServiceAddr where
  bytes : Vector UInt8 8
  length_eq : bytes[0] = 8
  family_eq : bytes[1] = afInet.toUInt8

namespace ServiceAddr

/-- The address that `sockaddr_as_bytes` writes. -/
def ofV4 (addr : SocketAddrV4) : ServiceAddr where
  bytes := sockaddrAsBytes addr
  length_eq := (getElem_sockaddrAsBytes_header addr).1
  family_eq := (getElem_sockaddrAsBytes_header addr).2

/-- The port and the octets that the bytes spell. -/
def toV4 (addr : ServiceAddr) : SocketAddrV4 where
  octets := Vector.ofFn fun i => addr.bytes.get ⟨i.val + 4, by omega⟩
  port := (addr.bytes[2].toUInt16 <<< 8) ||| addr.bytes[3].toUInt16

theorem toV4_ofV4 (addr : SocketAddrV4) : (ofV4 addr).toV4 = addr := by
  have hoctets : (ofV4 addr).toV4.octets = addr.octets := by
    apply Vector.ext
    intro i hi
    rw [toV4, Vector.getElem_ofFn]
    exact getElem_sockaddrAsBytes_octet addr hi
  have hport : (ofV4 addr).toV4.port = addr.port := by
    obtain ⟨hhigh, hlow⟩ := getElem_sockaddrAsBytes_port addr
    simp only [toV4, ofV4, hhigh, hlow, Bytes.ofBytes_toBytes]
  exact congrArg₂ SocketAddrV4.mk hoctets hport

theorem ofV4_toV4 (addr : ServiceAddr) : ofV4 addr.toV4 = addr := by
  obtain ⟨hlength, hfamily⟩ := getElem_sockaddrAsBytes_header addr.toV4
  obtain ⟨hhigh, hlow⟩ := getElem_sockaddrAsBytes_port addr.toV4
  apply ServiceAddr.ext
  apply Vector.ext
  intro i hi
  obtain rfl | rfl | rfl | rfl | hoctet : i = 0 ∨ i = 1 ∨ i = 2 ∨ i = 3 ∨ 4 ≤ i := by omega
  · exact hlength.trans addr.length_eq.symm
  · exact hfamily.trans addr.family_eq.symm
  · exact hhigh.trans (Bytes.high_ofBytes _ _)
  · exact hlow.trans (Bytes.low_ofBytes _ _)
  · obtain ⟨k, rfl⟩ := Nat.exists_eq_add_of_le' hoctet
    calc
      (sockaddrAsBytes addr.toV4)[k + 4] = addr.toV4.octets[k] :=
        getElem_sockaddrAsBytes_octet _ (by omega)
      _ = addr.bytes[k + 4] := by
        rw [toV4, Vector.getElem_ofFn]
        rfl

/-- **`sockaddr_as_bytes` is a bijection** between the IPv4 addresses and the well-formed addresses
of `soc:U`. -/
def equivV4 : SocketAddrV4 ≃ ServiceAddr where
  toFun := ofV4
  invFun := toV4
  left_inv := toV4_ofV4
  right_inv := ofV4_toV4

/-- The address at the start of a well-formed buffer. -/
def ofBuffer (tmpaddr : Vector UInt8 0x1C) (h : WellFormedAddr tmpaddr) : ServiceAddr where
  bytes := tmpaddr.take 8
  length_eq := (Vector.getElem_take _).trans h.1
  family_eq := (Vector.getElem_take _).trans ((toUInt16_eq_afInet_iff _).mp h.2)

end ServiceAddr

/-! ### Reading what was written -/

/-- 14 bytes are copied out of a well-formed buffer. -/
theorem userAddrlen_of_wellFormed {tmpaddr : Vector UInt8 0x1C} (h : WellFormedAddr tmpaddr) :
    Raw.userAddrlen tmpaddr[0] tmpaddr[1] = 16 := by
  rw [Raw.userAddrlen, if_pos h.2, h.1]
  rfl

/-- The port and the octets are copied to the start of `sa_data`. -/
theorem readSockaddr_data {tmpaddr : Vector UInt8 0x1C} (h : WellFormedAddr tmpaddr) :
    ∃ addr, readSockaddr tmpaddr = .ok addr ∧ addr.family = afInet ∧
      ∀ (i : ℕ) (hi : i < 6), addr.data[i] = (tmpaddr.take 8)[i + 2] := by
  obtain ⟨hlen, hfamily⟩ := h
  simp only [readSockaddr, hlen, hfamily, if_true]
  rw [if_neg (by decide)]
  refine ⟨_, rfl, rfl, ?_⟩
  intro i hi
  rw [Vector.getElem_ofFn, Vector.getElem_take]
  exact if_pos (show i < 14 by omega)

/-- A well-formed buffer is read as the address at its start. -/
theorem readSockaddr_eq_ofBuffer {tmpaddr : Vector UInt8 0x1C} (h : WellFormedAddr tmpaddr) :
    ∃ addr, readSockaddr tmpaddr = .ok addr ∧
      addr.asSocketIpv4 = some (ServiceAddr.ofBuffer tmpaddr h).toV4 := by
  obtain ⟨addr, hread, hfamily, hdata⟩ := readSockaddr_data h
  refine ⟨addr, hread, (if_pos hfamily).trans (congrArg some ?_)⟩
  unfold SockAddr.inet ServiceAddr.toV4
  refine congrArg₂ SocketAddrV4.mk (Vector.ext fun i hi => ?_) ?_
  · rw [Vector.getElem_ofFn, Vector.getElem_ofFn]
    exact hdata (i + 2) (by omega)
  · rw [hdata 0 (by decide), hdata 1 (by decide)]
    rfl

/-- An address that was written is well formed, whatever follows it ... -/
theorem wellFormedAddr_append (addr : SocketAddrV4) (rest : Vector UInt8 20) :
    WellFormedAddr (sockaddrAsBytes addr ++ rest) := by
  obtain ⟨hlength, hfamily⟩ := getElem_sockaddrAsBytes_header addr
  refine ⟨?_, (toUInt16_eq_afInet_iff _).mpr ?_⟩
  · exact (Vector.getElem_append_left (by decide)).trans hlength
  · exact (Vector.getElem_append_left (by decide)).trans hfamily

/-- ... and is the address at the start of the buffer. -/
theorem ofBuffer_append (addr : SocketAddrV4) (rest : Vector UInt8 20) :
    ServiceAddr.ofBuffer (sockaddrAsBytes addr ++ rest) (wellFormedAddr_append addr rest) =
      .ofV4 addr := by
  apply ServiceAddr.ext
  apply Vector.ext
  intro i hi
  calc
    ((sockaddrAsBytes addr ++ rest).take 8)[i] = (sockaddrAsBytes addr ++ rest)[i] :=
      Vector.getElem_take _
    _ = (sockaddrAsBytes addr)[i] := Vector.getElem_append_left hi

/-- **The address codec round-trips.**  What `sockaddr_as_bytes` wrote at the start of the buffer,
`read_sockaddr` reads without leaving the buffer or `sa_data`, and gives back; and a well-formed
buffer starts with what `sockaddr_as_bytes` writes for the address read from it. -/
theorem codec_round_trips (lib : Socket2) :
    (∀ (addr : SocketAddrV4) (rest : Vector UInt8 20), ∃ bytes read,
      Raw.sockaddrAsBytes lib addr = .ok bytes ∧
      Bytes.Fits 0x1C 2 26 0
        (Raw.userAddrlen (bytes ++ rest)[0] (bytes ++ rest)[1] - 2).toNat ∧
      Raw.readSockaddr (bytes ++ rest) = .ok read ∧ lib.asSocketIpv4 read = some addr) ∧
    ∀ tmpaddr : Vector UInt8 0x1C, WellFormedAddr tmpaddr → ∃ read addr,
      Raw.readSockaddr tmpaddr = .ok read ∧ lib.asSocketIpv4 read = some addr ∧
      Raw.sockaddrAsBytes lib addr = .ok (tmpaddr.take 8) := by
  refine ⟨?_, ?_⟩
  · intro addr rest
    have hwf := wellFormedAddr_append addr rest
    obtain ⟨read, hread, hv4⟩ := readSockaddr_eq_ofBuffer hwf
    rw [ofBuffer_append] at hv4
    refine ⟨sockaddrAsBytes addr, read, Raw.sockaddrAsBytes_eq lib addr, ?_,
      (Raw.readSockaddr_eq _).trans hread, (lib.asSocketIpv4_eq read).trans
        (hv4.trans (congrArg some (ServiceAddr.equivV4.symm_apply_apply addr)))⟩
    have hlen := userAddrlen_of_wellFormed hwf
    rw [hlen]
    decide
  · intro tmpaddr hwf
    obtain ⟨read, hread, hv4⟩ := readSockaddr_eq_ofBuffer hwf
    refine ⟨read, _, (Raw.readSockaddr_eq tmpaddr).trans hread,
      (lib.asSocketIpv4_eq read).trans hv4, ?_⟩
    have hbytes := congrArg ServiceAddr.bytes
      (ServiceAddr.equivV4.apply_symm_apply (.ofBuffer tmpaddr hwf))
    exact (Raw.sockaddrAsBytes_eq lib _).trans (congrArg Outcome.ok hbytes)

/-- `127.0.0.1:8080`, with other bytes after it. -/
def loopbackBuffer : Vector UInt8 0x1C :=
  (#v[8, 2, 0x1F, 0x90, 127, 0, 0, 1] : Vector UInt8 8) ++ Vector.replicate 20 (0xFF : UInt8)

theorem codec_round_trips_loopback :
    WellFormedAddr loopbackBuffer ∧ ∃ read addr,
      Raw.readSockaddr loopbackBuffer = .ok read ∧ Socket2.libc.asSocketIpv4 read = some addr ∧
      Raw.sockaddrAsBytes .libc addr = .ok #v[8, 2, 0x1F, 0x90, 127, 0, 0, 1] := by
  have hwf : WellFormedAddr loopbackBuffer := ⟨by decide, by decide⟩
  have hbytes : loopbackBuffer.take 8 = #v[8, 2, 0x1F, 0x90, 127, 0, 0, 1] := by decide
  refine ⟨hwf, ?_⟩
  rw [← hbytes]
  exact (codec_round_trips .libc).2 loopbackBuffer hwf

end BunnyDs
