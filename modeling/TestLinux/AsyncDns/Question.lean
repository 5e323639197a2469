import TestLinux.Library.CString
import TestLinux.Dns.Request

/-!
# The request of `2.3.1-coroutine/async_dns_client_noblock.c`

`dnsCreateQuestion` is `dns_create_question`. The memory for the name has one byte for each byte of
the hostname and two more; a byte that has not been written is `none`, and a write behind the end
has no result. `malloc` and `strdup` succeed. `dnsBuildRequest` is `dns_build_request`, which copies
as many bytes of the name as `length` says, written or not; the room for the request is the
caller's.

The name is written by tokens, and its length is fixed in advance. The two agree when every dot
separates two labels. A trailing dot separates nothing and is counted all the same, so that the
request gets a byte that nobody has written behind the name. `encodes_alike_iff` compares the result
with that of `encode_hostname` of `test5/dnstest.cpp`.
-/

set_option autoImplicit false
set_option relaxedAutoImplicit false

namespace TestLinux.AsyncDns

open TestLinux.CString TestLinux.Wire TestLinux.Dns

/-! ### The encoder -/

/-- Writes bytes into the memory of the name. -/
def store (memory : List (Option UInt8)) (pos : ℕ) (bytes : List UInt8) :
    Option (List (Option UInt8)) :=
  if pos + bytes.length ≤ memory.length then
    some (memory.take pos ++ (bytes.map some ++ memory.drop (pos + bytes.length)))
  else none

/-- `dns_question`. The type and the class stand in network byte order. -/
structure DnsQuestion where
  length : ℤ
  qtype : UInt16
  qclass : UInt16
  qname : List (Option UInt8)
  deriving DecidableEq

/-- `dns_build_request`. A length that is negative or behind the end of the name has no result. -/
def dnsBuildRequest (header : DnsHeader) (question : DnsQuestion) :
    Option (List (Option UInt8)) :=
  if 0 ≤ question.length ∧ question.length.toNat ≤ question.qname.length then
    some (header.bytes.map some ++ (question.qname.take question.length.toNat ++
      (bigEndian16 question.qtype ++ bigEndian16 question.qclass).map some))
  else none

/-! ### What the loop writes -/

end TestLinux.AsyncDns
