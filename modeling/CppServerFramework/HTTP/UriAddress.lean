import CppServerFramework.HTTP.Exchange
import CppServerFramework.HTTP.UriReference
import CppServerFramework.HTTP.UriRoundTrip
import CppServerFramework.Socket.AddressText

/-!
# The address of a URI

`createAddressFromUri` (`HTTP/uri.rl:204-210`) looks the host up and sets the port.  `Lookup` asks
for addresses of IPv4 alone, by its default argument (`socket/ipaddress.h:38-40`).
-/

namespace CppServerFramework

open HTTP (Bytes ascii decimal Uri UriParts UriAuthority)
open Socket

namespace HTTP

variable (host : Endian) (getaddrinfo : GetAddrInfo)

variable {host : Endian} {getaddrinfo : GetAddrInfo} {number : BitVec 32} {port : BitVec 16}
  {i path : Bytes} {query fragment : Option Bytes} {b : UInt8}

/-! ## Hosts -/

end HTTP

end CppServerFramework
