import Krb5Rs.RpcGssSound
import Krb5Rs.IpropSound
import Krb5Rs.UlogTotal
import Krb5Rs.DumpSound
import Krb5Rs.TlFrame
import Krb5Rs.ActivationSound
import Krb5Rs.RotateSound
import Krb5Rs.ProfileSound
import Krb5Rs.KeytabSound
import Krb5Rs.TicketPolicySound
import Krb5Rs.LockoutSound
import Krb5Rs.PacGrow
import Krb5Rs.AuthDataSound
import Krb5Rs.MitRecordSound
import Krb5Rs.Lockdown
import Krb5Rs.GssSound
import Krb5Rs.KeyOrder
import Krb5Rs.PollSound
import Krb5Rs.TransitSound
import Krb5Rs.RealmTree
import Krb5Rs.LdapName
import Krb5Rs.Localauth
import Krb5Rs.PrivChainSound
import Krb5Rs.TgsExchangeSound
import Krb5Rs.SpnegoSound
import Krb5Rs.NegTokenSound
import Krb5Rs.FileCcacheSound
import Krb5Rs.History
import Krb5Rs.Nfold
import Krb5Rs.Glob
import Krb5Rs.KeptKeys
import Krb5Rs.Kadm5Xdr
import Krb5Rs.LdapAttr
