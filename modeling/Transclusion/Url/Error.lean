import Transclusion.Text

/-! Why a text is no URL, and the wording of each reason. -/
namespace Transclusion.Url

/-- Why a text is not the URL of something on a host. -/
inductive Error where
  | relative
  | emptyHost
  | domain
  | hostCharacter
  | ipv4
  | ipv6
  | port
deriving DecidableEq, Repr

namespace Error

/-- The name of the error and what it means. -/
def message : Error → Text
  | relative => "RelativeUrlWithoutBase: relative URL without a base".toList
  | emptyHost => "EmptyHost: empty host".toList
  | domain => "IdnaError: invalid international domain name".toList
  | hostCharacter => "InvalidDomainCharacter: invalid domain character".toList
  | ipv4 => "InvalidIpv4Address: invalid IPv4 address".toList
  | ipv6 => "InvalidIpv6Address: invalid IPv6 address".toList
  | port => "InvalidPort: invalid port number".toList

end Error

end Transclusion.Url
